import Tempest.Bundle.Bundle
import Tempest.Python.Repr

/-!
# Repro — the standalone scripts of a divergence (`minimize/repro.py`, `execute/ts_dual.py`)

The templates are lists of lines.  Observed summaries, source roots and adapters are put in through
`repr` or `json.dumps`; names, literals and revisions are spliced in as they are.
-/

namespace Tempest

open Python

/-- The keyword arguments of `render_repro_script`. -/
structure ReproFacts where
  symbol : PyStr
  module : PyStr
  qualname : PyStr
  argsLiteral : PyStr
  kwargsLiteral : PyStr
  divergenceClass : DivergenceClass
  baseSha : PyStr
  headSha : PyStr
  baseSummary : PyStr
  headSummary : PyStr
  adapterSource : Option PyStr
  sourceRoots : List PyStr

def textLines (lines : List PyStr) : PyStr := lines.flatMap fun line => line ++ [lineFeed]

def shortSha (sha : PyStr) : PyStr := sha.take 12

section Python

variable (printable : CodePoint → Bool)

def rootsPrologue (sourceRoots : List PyStr) : PyStr :=
  if sourceRoots = [] then []
  else
    textLines
      [lit "import sys", [], lit "sys.path[:0] = " ++ reprStrs printable sourceRoots, []]

def resolveTarget (f : ReproFacts) : PyStr :=
  match f.adapterSource with
  | some source =>
    textLines
      [lit "ADAPTER_SOURCE = " ++ reprStr printable source, [],
        lit "# This target is an instance method, reached through the AI-written adapter below —",
        lit "# executed verbatim; the constructor arguments it fixes are part of the evidence.",
        lit "_ns: dict[str, object] = \x7b\x7d",
        lit "exec(compile(ADAPTER_SOURCE, \"tempest_adapter.py\", \"exec\"), _ns)",
        lit "fn = _ns[\"adapter\"]"]
  | none =>
    textLines
      [lit "import importlib", [],
        lit "fn = importlib.import_module(\"" ++ f.module ++ lit "\")",
        lit "for part in \"" ++ f.qualname ++ lit "\".split(\".\"):",
        lit "    fn = getattr(fn, part)"]

def renderReproScript (f : ReproFacts) : PyStr :=
  textLines
      [lit "#!/usr/bin/env python3",
        lit "\"\"\"Tempest minimized reproduction — " ++ TextEnum.text f.divergenceClass ++
          lit " in `" ++ f.symbol ++ lit "`.", [],
        lit "Run this file from the repo root at either revision and compare what you see:", [],
        lit "    git checkout " ++ shortSha f.baseSha ++ lit " && python this_file.py",
        lit "    git checkout " ++ shortSha f.headSha ++ lit " && python this_file.py", [],
        lit "Generated by Tempest. Evidence, not opinion.", lit "\"\"\"", [],
        lit "ARGS = " ++ f.argsLiteral, lit "KWARGS = " ++ f.kwargsLiteral, [],
        lit "BASE_SHA = \"" ++ shortSha f.baseSha ++ lit "\"",
        lit "HEAD_SHA = \"" ++ shortSha f.headSha ++ lit "\"",
        lit "BASE_OBSERVED = " ++ reprStr printable f.baseSummary,
        lit "HEAD_OBSERVED = " ++ reprStr printable f.headSummary, []] ++
    rootsPrologue printable f.sourceRoots ++ resolveTarget printable f ++
    textLines
      [[], lit "print(f\"calling " ++ f.symbol ++
          lit "(*\x7bARGS!r\x7d, **\x7bKWARGS!r\x7d)\")",
        lit "try:", lit "    result = fn(*ARGS, **KWARGS)",
        lit "except BaseException as exc:  # observing, not handling",
        lit "    print(f\"raised   \x7btype(exc).__name__\x7d: \x7bexc\x7d\")", lit "else:",
        lit "    print(f\"returned \x7bresult!r\x7d\")", [], lit "print()",
        lit "print(\"tempest observed:\")",
        lit "print(f\"  base \x7bBASE_SHA\x7d: \x7bBASE_OBSERVED\x7d\")",
        lit "print(f\"  head \x7bHEAD_SHA\x7d: \x7bHEAD_OBSERVED\x7d\")"]

end Python

/-- The keyword arguments of `render_ts_repro_script`. -/
structure TsReproFacts where
  symbol : PyStr
  relPath : PyStr
  exportName : PyStr
  argsJson : PyStr
  baseSha : PyStr
  headSha : PyStr
  baseSummary : PyStr
  headSummary : PyStr

def renderTsReproScript (f : TsReproFacts) : PyStr :=
  textLines
    [lit "#!/usr/bin/env node",
      lit "// Tempest minimized reproduction — `" ++ f.symbol ++ lit "` (TypeScript).", lit "//",
      lit "//   git checkout " ++ shortSha f.baseSha ++
        lit " && node --experimental-strip-types this_file.mjs",
      lit "//   git checkout " ++ shortSha f.headSha ++
        lit " && node --experimental-strip-types this_file.mjs",
      lit "//", lit "// Generated by Tempest. Evidence, not opinion.", [],
      lit "import \x7b pathToFileURL \x7d from \"node:url\";", [],
      lit "const ARGS = " ++ f.argsJson ++ lit ";",
      lit "const BASE_OBSERVED = " ++ jsonStr f.baseSummary ++ lit ";",
      lit "const HEAD_OBSERVED = " ++ jsonStr f.headSummary ++ lit ";", [],
      lit "const mod = await import(pathToFileURL(" ++ jsonStr f.relPath ++ lit ").href);",
      lit "const fn = mod[" ++ jsonStr f.exportName ++ lit "];",
      lit "console.log(`calling " ++ f.symbol ++
        lit "($\x7bJSON.stringify(ARGS).slice(1, -1)\x7d)`);",
      lit "try \x7b", lit "  const result = await fn(...ARGS);",
      lit "  console.log(`returned $\x7bJSON.stringify(result)\x7d`);", lit "\x7d catch (err) \x7b",
      lit "  console.log(`raised   $\x7berr?.constructor?.name\x7d: $\x7berr?.message\x7d`);",
      lit "\x7d", lit "console.log(\"\");", lit "console.log(\"tempest observed:\");",
      lit "console.log(`  base " ++ shortSha f.baseSha ++ lit ": $\x7bBASE_OBSERVED\x7d`);",
      lit "console.log(`  head " ++ shortSha f.headSha ++ lit ": $\x7bHEAD_OBSERVED\x7d`);"]

end Tempest
