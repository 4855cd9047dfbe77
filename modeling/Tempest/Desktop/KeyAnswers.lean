import Tempest.Desktop.KeyBridge

/-!
# KeyAnswers — what the bridge answers, and what it does to the keychain

One equation for each outcome of a request.  A presence check gets its name back from the query, a
revocation from the path, so they need different names: `Checkable` and `Revocable`.
-/

namespace Tempest
namespace KeyBridge

open Python BrowserUrl

/-! ## The keychain -/

def Faults.Clears (f : Faults) (account : PyStr) : Prop :=
  f.clear account = none ∧ f.stays account = false

/-- The key that counts for a variable: its own item, or the one of an older install. -/
def effective (kc : Keychain) (env : PyStr) : Option PyStr :=
  match kc.get? env with
  | some key => some key
  | none => if env = anthropicAccount then kc.get? legacyAccount else none

section Keychain

variable {f : Faults} {kc kc' : Keychain} {account env : PyStr}

theorem readKey_of_none (h : f.read account = none) :
    f.readKey kc account = .ok (kc.get? account) := by
  simp only [Faults.readKey, h]

def without (kc : Keychain) (account : PyStr) : Keychain := kc.filterKeys fun other => other ≠ account

@[simp] theorem get?_without : (without kc account).get? env =
    if env = account then none else kc.get? env := by
  have hiff : ∀ key, (without kc account).get? env = some key ↔
      kc.get? env = some key ∧ decide (env ≠ account) = true := fun key => Dict.get?_filterKeys
  split_ifs with heq
  · rw [Option.eq_none_iff_forall_ne_some]
    intro key hkey
    exact absurd heq (of_decide_eq_true ((hiff key).1 hkey).2)
  · apply Option.ext
    intro key
    rw [hiff key]
    simp [heq]

theorem clearKey_eq (h : f.Clears account) : f.clearKey kc account = .ok (without kc account) := by
  simp only [Faults.clearKey, h.1, h.2, without, Bool.false_eq_true, if_false]

theorem clearIgnored_eq (h : f.Clears account) : clearIgnored f kc account = without kc account := by
  simp only [clearIgnored, clearKey_eq h]

theorem get?_foldl_without (accounts : List PyStr) :
    (accounts.foldl without kc).get? env = if env ∈ accounts then none else kc.get? env := by
  induction accounts generalizing kc with
  | nil => simp
  | cons account accounts ih =>
    rw [List.foldl_cons, ih, get?_without]
    by_cases hmem : env ∈ accounts
    · simp [hmem]
    · simp [hmem]

theorem deleteAll_eq {catalog : Catalog} (h : ∀ account, f.Clears account) :
    deleteAll f catalog kc = without ((envs catalog).foldl without kc) legacyAccount := by
  have hstep : clearIgnored f = without := by
    funext kc account
    exact clearIgnored_eq (h account)
  rw [deleteAll, hstep]

theorem not_isEnvAccount_legacy : isEnvAccount legacyAccount = false := by
  decide

theorem isEnvAccount_anthropic : isEnvAccount anthropicAccount = true := by
  decide

theorem ne_legacy (h : isEnvAccount env = true) : env ≠ legacyAccount := by
  rintro rfl
  rw [not_isEnvAccount_legacy] at h
  cases h

theorem envFor_mem {catalog : Catalog} {name : PyStr} (h : envFor catalog name = some env) :
    env ∈ envs catalog := by
  obtain ⟨p, hp, rfl⟩ := Option.map_eq_some_iff.1 h
  have hkeyed := List.find?_some hp
  simp only [decide_eq_true_eq] at hkeyed
  exact List.mem_filter.2 ⟨List.mem_map_of_mem (List.mem_of_find?_eq_some hp),
    decide_eq_true hkeyed.2⟩

end Keychain

/-! ## Names in URLs -/

/-- A name that the query of a URL gives back: without `#`, `&`, `%`, `+`, breaks and blanks at the
end. -/
structure Checkable (name : PyStr) : Prop extends QueryName name where
  decodes : ∀ c ∈ name, c ≠ percent ∧ c ≠ plus ∧ c ≠ ampersand ∧ isSurrogate c = false

/-- A name that the path of a URL gives back: of characters that are not encoded, without segments of
dots, and not once more behind the route. -/
structure Revocable (name : PyStr) : Prop extends PathName name where
  once : startsWith keysRoute name = false

section Urls

theorem hexDigit_hexUpper {n : Nat} (h : n < 16) :
    hexDigit (byte (hexUpper n).val) = some n ∧ byte (hexUpper n).val ≠ byte 0x2B := by
  interval_cases n <;> decide

theorem utf8_percentByte (b : Byte) :
    utf8 (percentByte b) =
      [byte 0x25, byte (hexUpper (b.val / 16)).val, byte (hexUpper (b.val % 16)).val] := by
  have hascii : ∀ n, n < 16 → utf8Char (hexUpper n) = [byte (hexUpper n).val] := by
    intro n hn
    interval_cases n <;> rfl
  have hb := b.isLt
  have hhigh := hascii (b.val / 16) (by omega)
  have hlow := hascii (b.val % 16) (by omega)
  simp only [utf8, percentByte, List.flatMap_cons, List.flatMap_nil, hhigh, hlow]
  rfl

theorem percentDecode_byte (b : Byte) (rest : Bytes) :
    percentDecode (utf8 (percentByte b) ++ rest) = b :: percentDecode rest := by
  have hb := b.isLt
  have hhigh := @hexDigit_hexUpper (b.val / 16) (by omega)
  have hlow := @hexDigit_hexUpper (b.val % 16) (by omega)
  have hvalue : byte (16 * (b.val / 16) + b.val % 16) = b := by
    rw [Nat.div_add_mod]
    exact Fin.ext (byte_val hb)
  rw [utf8_percentByte]
  simp only [List.cons_append, List.nil_append, percentDecode, if_true, hexByte, if_neg hhigh.2,
    hhigh.1, hlow.1, hvalue]

theorem percentDecode_plain {b : Byte} (h : b ≠ byte 0x25) (h' : b ≠ byte 0x2B) (rest : Bytes) :
    percentDecode (b :: rest) = b :: percentDecode rest := by
  have hself : plainByte b = b := if_neg h'
  match rest with
  | [] => simp only [percentDecode, hself]
  | [_] => simp only [percentDecode, hself]
  | _ :: _ :: _ => simp only [percentDecode, if_neg h, hself]

theorem percentDecode_bytes (bs rest : Bytes) :
    percentDecode (utf8 (bs.flatMap percentByte) ++ rest) = bs ++ percentDecode rest := by
  induction bs with
  | nil => rfl
  | cons b bs ih =>
    have hsplit : utf8 ((b :: bs).flatMap percentByte) =
        utf8 (percentByte b) ++ utf8 (bs.flatMap percentByte) := List.flatMap_append
    rw [hsplit, List.append_assoc, percentDecode_byte, ih]
    rfl

theorem percentDecode_encodeChar {c : CodePoint} (h : c ≠ percent) (h' : c ≠ plus)
    (hsurrogate : isSurrogate c = false) (rest : Bytes) :
    percentDecode (utf8 (encodeChar querySpecial c) ++ rest) = utf8Char c ++ percentDecode rest := by
  unfold encodeChar
  split_ifs with hencoded hno
  · rw [hsurrogate] at hno
    cases hno
  · exact percentDecode_bytes _ rest
  · have hascii : c.val < 0x80 := by
      simp only [encoded, Bool.or_eq_true, decide_eq_true_eq, not_or] at hencoded
      omega
    have hchar : utf8Char c = [byte c.val] := if_pos hascii
    have hutf8 : utf8 [c] = [byte c.val] := by
      rw [utf8, List.flatMap_cons, hchar]
      rfl
    have hne : ∀ n, n < 256 → c ≠ codePoint n → byte c.val ≠ byte n := by
      intro n hn hother heq
      rw [byte_inj (by omega) hn] at heq
      apply hother
      rw [← heq, codePoint_val]
    rw [hutf8, hchar]
    exact percentDecode_plain (hne 0x25 (by omega) h) (hne 0x2B (by omega) h') rest

variable {name : PyStr}

theorem percentDecode_percentEncode (h : ∀ c ∈ name, c ≠ percent ∧ c ≠ plus ∧ isSurrogate c = false) :
    percentDecode (utf8 (percentEncode querySpecial name)) = utf8 name := by
  induction name with
  | nil => rfl
  | cons c name ih =>
    obtain ⟨hpercent, hplus, hsurrogate⟩ := h c List.mem_cons_self
    have hsplit : utf8 (percentEncode querySpecial (c :: name)) =
        utf8 (encodeChar querySpecial c) ++ utf8 (percentEncode querySpecial name) :=
          List.flatMap_append
    rw [hsplit, percentDecode_encodeChar hpercent hplus hsurrogate,
      ih fun d hd => h d (List.mem_cons_of_mem c hd)]
    rfl

theorem ampersand_notMem_percentEncode (h : ∀ c ∈ name, c ≠ ampersand) :
    ampersand ∉ percentEncode querySpecial name := by
  have hhex : ∀ n, n < 16 → ampersand ≠ hexUpper n := by
    intro n hn
    interval_cases n <;> decide
  have hpercent : ampersand ≠ percent := by decide
  intro hmem
  obtain ⟨c, hc, hin⟩ := List.mem_flatMap.1 hmem
  unfold encodeChar at hin
  split_ifs at hin with hencoded hsurrogate
  all_goals
    first
    | exact h c hc (List.mem_singleton.1 hin).symm
    | obtain ⟨b, _, hb⟩ := List.mem_flatMap.1 hin
      have hlt := b.isLt
      simp only [percentByte, List.mem_cons, List.not_mem_nil, or_false] at hb
      rcases hb with hb | hb | hb
      · exact hpercent hb
      · exact hhex _ (by omega) hb
      · exact hhex _ (by omega) hb

theorem queryParam_name (h : Checkable name) :
    queryParam (lit "name=" ++ percentEncode querySpecial name) (lit "name") = some name := by
  have hsplit : (lit "name=" ++ percentEncode querySpecial name).splitOn ampersand =
      [lit "name=" ++ percentEncode querySpecial name] := by
    apply List.splitOn_eq_singleton
    intro hmem
    rcases List.mem_append.1 hmem with hmem | hmem
    · revert hmem
      decide
    · exact ampersand_notMem_percentEncode (fun c hc => (h.decodes c hc).2.2.1) hmem
  have hkey : (lit "name=" ++ percentEncode querySpecial name).takeWhile
      (fun c => decide (c ≠ equals)) = lit "name" := rfl
  have hvalue : ((lit "name=" ++ percentEncode querySpecial name).dropWhile
      (fun c => decide (c ≠ equals))).drop 1 = percentEncode querySpecial name := rfl
  have hencodable : encodable name = true := by
    apply List.all_eq_true.2
    intro c hc
    rw [(h.decodes c hc).2.2.2]
    rfl
  simp only [queryParam, hsplit, List.find?_cons, hkey, decide_true, Option.map_some, hvalue]
  have hdecodes : ∀ c ∈ name, c ≠ percent ∧ c ≠ plus ∧ isSurrogate c = false :=
    fun c hc => ⟨(h.decodes c hc).1, (h.decodes c hc).2.1, (h.decodes c hc).2.2.2⟩
  rw [percentDecode_percentEncode hdecodes, decodeReplace_utf8 hencodable]

theorem stripEnds_append {c : CodePoint} {above name : PyStr} (hfirst : 0x20 < c.val)
    (habove : ∀ d, (c :: above).getLast? = some d → 0x20 < d.val)
    (hname : ∀ d, name.getLast? = some d → 0x20 < d.val) :
    stripEnds (c :: above ++ name) = c :: above ++ name := by
  apply stripEnds_eq_self hfirst
  intro d hd
  have hor : name.getLast?.or (c :: above).getLast? = some d := List.getLast?_append.symm.trans hd
  cases hlast : name.getLast? with
  | some e =>
    rw [hlast, Option.some_or] at hor
    exact hname d (hlast.trans hor)
  | none =>
    rw [hlast, Option.none_or] at hor
    exact habove d hor

theorem browserUrl_check (h : QueryName name) :
    browserUrl (lit "/api/keys?name=" ++ name) =
      (lit "/api/keys", lit "name=" ++ percentEncode querySpecial name) := by
  have hends : stripEnds (lit "/api/keys?name=" ++ name) = lit "/api/keys?name=" ++ name := by
    refine @stripEnds_append slash (lit "api/keys?name=") name (by decide) ?_ h.last
    intro d hd
    cases hd
    decide
  have hroute : (lit "/api/keys?name=").all (fun c => !isBreak c) = true := by
    decide
  have hbreaks : ∀ c ∈ lit "/api/keys?name=" ++ name, isBreak c = false := by
    intro c hc
    rcases List.mem_append.1 hc with hc | hc
    · exact Bool.not_eq_true' _ ▸ List.all_eq_true.1 hroute c hc
    · exact (h.plain c hc).2
  have hhash : hash ∉ lit "/api/keys?name=" ++ name := by
    intro hmem
    rcases List.mem_append.1 hmem with hmem | hmem
    · revert hmem
      decide
    · exact (h.plain hash hmem).1 rfl
  have hpath : (lit "/api/keys?name=" ++ name).takeWhile (fun c => decide (c ≠ question)) =
      lit "/api/keys" := rfl
  have hquery : ((lit "/api/keys?name=" ++ name).dropWhile (fun c => decide (c ≠ question))).drop 1 =
      lit "name=" ++ name := rfl
  have hsegments : ((segments [] (((lit "/api/keys").splitOn slash).drop 1)).flatMap
      fun segment => slash :: segment) = lit "/api/keys" := by
    decide_cbv
  have hname : percentEncode querySpecial (lit "name=") = lit "name=" := by
    decide
  rw [browserUrl_eq hends hbreaks hhash, hpath, hquery, hsegments, percentEncode, List.flatMap_append]
  exact congrArg (fun text => (lit "/api/keys", text ++ percentEncode querySpecial name)) hname

theorem of_not_encoded {c : CodePoint} (h : encoded pathSpecial c = false) :
    0x20 < c.val ∧ c ≠ hash ∧ c ≠ question := by
  simp only [encoded, Bool.or_eq_false_iff, decide_eq_false_iff_not] at h
  have hspecial : ∀ d ∈ pathSpecial, c ≠ d := by
    rintro d hd rfl
    exact Bool.false_ne_true (h.2.symm.trans (List.contains_iff_mem.2 hd))
  have hblank := hspecial blank (by decide)
  have hval : c.val ≠ 0x20 := by
    intro hval
    apply hblank
    rw [← codePoint_val c, hval]
    rfl
  exact ⟨by omega, hspecial hash (by decide), hspecial question (by decide)⟩

theorem browserUrl_revoke (h : PathName name) :
    browserUrl (keysRoute ++ name) = (keysRoute ++ name, []) := by
  have hroute : keysRoute.all (fun c => !encoded pathSpecial c) = true := by
    decide
  have hplain : ∀ c ∈ keysRoute ++ name, 0x20 < c.val ∧ c ≠ hash ∧ c ≠ question := by
    intro c hc
    rcases List.mem_append.1 hc with hc | hc
    · exact of_not_encoded (Bool.not_eq_true' _ ▸ List.all_eq_true.1 hroute c hc)
    · exact of_not_encoded (h.plain c hc)
  have hends : stripEnds (keysRoute ++ name) = keysRoute ++ name := by
    refine @stripEnds_append slash (lit "api/keys/") name (by decide) ?_ ?_
    · intro d hd
      cases hd
      decide
    · intro d hd
      exact (of_not_encoded (h.plain d (List.mem_of_getLast? hd))).1
  have hbreaks : ∀ c ∈ keysRoute ++ name, isBreak c = false := by
    intro c hc
    have hval := (hplain c hc).1
    simp only [isBreak, Bool.or_eq_false_iff, decide_eq_false_iff_not]
    omega
  have hpath : (keysRoute ++ name).takeWhile (fun c => decide (c ≠ question)) = keysRoute ++ name :=
    List.takeWhile_eq_self_iff.2 fun c hc => decide_eq_true (hplain c hc).2.2
  have hquery : (keysRoute ++ name).dropWhile (fun c => decide (c ≠ question)) = [] :=
    List.dropWhile_eq_nil_iff.2 fun c hc => decide_eq_true (hplain c hc).2.2
  have hsplit : ((keysRoute ++ name).splitOn slash).drop 1 =
      lit "api" :: lit "keys" :: name.splitOn slash := by
    have hroute : keysRoute ++ name =
        [] ++ slash :: (lit "api" ++ slash :: (lit "keys" ++ slash :: name)) := rfl
    rw [hroute, List.splitOn_append_cons_self, List.splitOn_append_cons_self,
      List.splitOn_append_cons_self]
    rfl
  have hsegments : segments [] (lit "api" :: lit "keys" :: name.splitOn slash) =
      lit "api" :: lit "keys" :: name.splitOn slash := by
    apply segments_eq
    intro segment hsegment
    rcases List.mem_cons.1 hsegment with rfl | hsegment
    · decide
    rcases List.mem_cons.1 hsegment with rfl | hsegment
    · decide
    obtain ⟨hone, htwo⟩ := h.segment segment hsegment
    refine ⟨hone, htwo, ?_⟩
    apply percentEncode_eq_self
    intro c hc
    rcases mem_of_mem_splitOn hsegment hc with rfl | hc
    · decide
    · exact h.plain c hc
  rw [browserUrl_eq hends hbreaks fun hmem => (hplain _ hmem).2.1 rfl, hpath, hquery, hsplit,
    hsegments, List.flatMap_cons, List.flatMap_cons, flatMap_splitOn]
  rfl

theorem trimKeysRoute_name (h : startsWith keysRoute name = false) :
    trimKeysRoute (keysRoute ++ name) = name := by
  have hstart : startsWith keysRoute (keysRoute ++ name) = true :=
    List.isPrefixOf_iff_prefix.2 (List.prefix_append _ _)
  have hlength : (keysRoute ++ name).length = (8 + name.length) + 1 + 1 := by
    rw [List.length_append]
    have hroute : keysRoute.length = 10 := rfl
    omega
  rw [trimKeysRoute, hlength, trimStartFrom, if_pos hstart, List.drop_left, trimStartFrom, h,
    if_neg (by decide)]

theorem revokeAll_query : browserUrl (lit "/api/keys?all=true") = (lit "/api/keys", lit "all=true") ∧
    queryParam (lit "all=true") (lit "all") = some (lit "true") := by
  decide_cbv

theorem queryParam_nil : queryParam [] (lit "all") = none := by
  decide

end Urls

/-! ## Answers -/

def stored (kc : Keychain) (env key : PyStr) : Keychain :=
  if env = anthropicAccount then without (kc.set env key) legacyAccount else kc.set env key

def revoked (kc : Keychain) (env : PyStr) : Keychain :=
  if env = anthropicAccount then without (without kc env) legacyAccount else without kc env

section Answers

variable {readJson : PyStr → Option Json} {catalog : Catalog} {f : Faults} {kc : Keychain}
  {name env : PyStr}

theorem clearLegacy_eq (h : env = anthropicAccount → f.Clears legacyAccount) :
    clearLegacy f env kc = .ok (if env = anthropicAccount then without kc legacyAccount else kc) := by
  unfold clearLegacy
  split_ifs with hanthropic
  · exact clearKey_eq (h hanthropic)
  · rfl

theorem save_eq (post : Bool) (value : PyStr) :
    keysResponse f readJson catalog kc (Action.save post name value).request =
      putKey f readJson catalog kc
        (some (.obj [(lit "name", .str name), (lit "value", .str value)])) := by
  cases post <;> rfl

theorem saved_name (value : PyStr) : (stringField (lit "name")
    (.obj [(lit "name", .str name), (lit "value", .str value)])).getD [] = name := (rfl)

theorem saved_value (value : PyStr) : (stringField (lit "value")
    (.obj [(lit "name", .str name), (lit "value", .str value)])).getD [] = value := (rfl)

theorem save_unknown {post : Bool} {value : PyStr} (h : envFor catalog name = none) :
    keysResponse f readJson catalog kc (Action.save post name value).request =
      (refuse 404 (.noProvider name), kc) := by
  rw [save_eq, putKey]
  simp only [saved_name, h]

/-- A key that is empty or that the keychain does not take is not saved. -/
theorem save_refused {post : Bool} {value : PyStr} (h : envFor catalog name = some env)
    (hrefused : ¬ (keyFromDialogValue readJson value ≠ [] ∧ f.store env = none)) :
    ∃ status refusal, 400 ≤ status ∧
      keysResponse f readJson catalog kc (Action.save post name value).request =
        (refuse status refusal, kc) := by
  rw [save_eq, putKey]
  simp only [saved_name, saved_value, h]
  by_cases hempty : keyFromDialogValue readJson value = []
  · rw [if_pos hempty]
    exact ⟨422, .emptyKey, by decide, rfl⟩
  · rw [if_neg hempty]
    cases hstore : f.store env with
    | none => exact absurd ⟨hempty, hstore⟩ hrefused
    | some error =>
      simp only [Faults.storeKey, hstore]
      exact ⟨500, .keychain error, by decide, rfl⟩

theorem save_taken {post : Bool} {value : PyStr} (h : envFor catalog name = some env)
    (hkey : keyFromDialogValue readJson value ≠ []) (hstore : f.store env = none)
    (hlegacy : env = anthropicAccount → f.Clears legacyAccount) :
    keysResponse f readJson catalog kc (Action.save post name value).request =
      (⟨201, .empty⟩, stored kc env (keyFromDialogValue readJson value)) := by
  rw [save_eq, putKey]
  simp only [saved_name, saved_value, h, if_neg hkey, Faults.storeKey, hstore, clearLegacy_eq hlegacy, settle]
  rfl

theorem check_eq (h : Checkable name) :
    keysResponse f readJson catalog kc (Action.check name).request =
      (getKey f catalog kc (lit "name=" ++ percentEncode querySpecial name), kc) := by
  simp only [Action.request, browserUrl_check h.toQueryName]
  rfl

/-- A presence check reports the key that counts. -/
theorem check_known (h : Checkable name) (hread : f.read legacyAccount = none)
    (henv : envFor catalog name = some env) (hreadable : f.read env = none) :
    keysResponse f readJson catalog kc (Action.check name).request =
      (⟨200, .expiresAt (effective kc env).isSome⟩, kc) := by
  rw [check_eq h, getKey]
  simp only [queryParam_name h, henv, readKey_of_none hreadable, effective]
  cases hown : kc.get? env with
  | some key => rfl
  | none =>
    simp only [Faults.holds, readKey_of_none hread]
    by_cases hanthropic : env = anthropicAccount
    · cases hlegacy : kc.get? legacyAccount <;> simp [hanthropic]
    · simp [hanthropic]

theorem revoke_eq (h : Revocable name) :
    keysResponse f readJson catalog kc (Action.revoke name).request =
      deleteKey f catalog kc (keysRoute ++ name) [] := by
  simp only [Action.request, browserUrl_revoke h.toPathName]
  rfl

theorem revoke_unknown (h : Revocable name) (henv : envFor catalog name = none) :
    keysResponse f readJson catalog kc (Action.revoke name).request =
      (refuse 404 (.noProvider name), kc) := by
  rw [revoke_eq h, deleteKey, queryParam_nil, if_neg (by decide)]
  simp only [trimKeysRoute_name h.once, henv]

theorem revoke_refused (h : Revocable name) (henv : envFor catalog name = some env) {error : PyStr}
    (hclear : f.clear env = some error) :
    keysResponse f readJson catalog kc (Action.revoke name).request =
      (refuse 500 (.keychain error), kc) := by
  rw [revoke_eq h, deleteKey, queryParam_nil, if_neg (by decide)]
  simp only [trimKeysRoute_name h.once, henv, Faults.clearKey, hclear]

theorem revoke_taken (h : Revocable name) (henv : envFor catalog name = some env)
    (hclears : f.Clears env) (hlegacy : env = anthropicAccount → f.Clears legacyAccount) :
    keysResponse f readJson catalog kc (Action.revoke name).request =
      (⟨204, .empty⟩, revoked kc env) := by
  rw [revoke_eq h, deleteKey, queryParam_nil, if_neg (by decide)]
  simp only [trimKeysRoute_name h.once, henv, clearKey_eq hclears, clearLegacy_eq hlegacy, settle]
  rfl

theorem revokeAll_eq (h : ∀ account, f.Clears account) :
    keysResponse f readJson catalog kc Action.revokeAll.request =
      (⟨204, .empty⟩, without ((envs catalog).foldl without kc) legacyAccount) := by
  simp only [Action.request, revokeAll_query.1, keysResponse, deleteKey, revokeAll_query.2, if_true,
    deleteAll_eq h]

end Answers

end KeyBridge
end Tempest
