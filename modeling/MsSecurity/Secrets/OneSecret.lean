import MsSecurity.Secrets.RestCredentials

/-!
# One secret for each stanza

A page has one field that is encrypted. Its secrets are a map from stanzas to texts, and each
operation of `RestCredentials` reads or changes the map at its stanza. `decrypt_all` takes up the
secrets of all stanzas at once.
-/

namespace MsSecurity

open InputStanza (Fields)
open CredentialManager (Swallowed Tidy clearOf readResult credentialNotExist clearPasswords)

namespace RestCredentials

variable {credentials : RestCredentials} {f : String} {passwords : Passwords}
  {secrets : String → Option String} {name : String} {data : Fields}

/-! ## The map -/

/-- What is stored are the secrets of the stanzas. -/
structure Holds (credentials : RestCredentials) (f : String) (passwords : Passwords)
    (secrets : String → Option String) : Prop where
  tidy : credentials.manager.Tidy passwords
  clear : ∀ {name}, PlainName name → credentials.manager.clearOf passwords name =
    (secrets name).map fun v ↦ JsonText.dumps [(f, v)]
  nonempty : ∀ {name}, secrets name ≠ some ""

theorem Holds.update (h : credentials.Holds f passwords secrets) {after : Passwords}
    (htidy : credentials.manager.Tidy after) {secret : Option String} (hsecret : secret ≠ some "")
    (hname : credentials.manager.clearOf after name =
      secret.map fun v ↦ JsonText.dumps [(f, v)])
    (hothers : ∀ other, PlainName other → other ≠ name →
      credentials.manager.clearOf after other = credentials.manager.clearOf passwords other) :
    credentials.Holds f after (Function.update secrets name secret) := by
  refine ⟨htidy, fun {other} hother ↦ ?_, fun {other} ↦ ?_⟩
  · by_cases hne : other = name
    · rw [hne, Function.update_self, hname]
    · rw [Function.update_of_ne hne, hothers other hother hne, h.clear hother]
  · by_cases hne : other = name
    · rwa [hne, Function.update_self]
    · rw [Function.update_of_ne hne]
      exact h.nonempty

theorem not_swallowed_dumps (d : Dict String) : ¬Swallowed (JsonText.dumps d) := by
  rintro ⟨-, hsuffix⟩
  obtain ⟨text, htext⟩ := hsuffix
  have hlast := JsonText.getLast?_dumps d
  rw [← htext, List.getLast?_append, Option.or_eq_some_iff] at hlast
  rcases hlast with hmark | ⟨hmark, -⟩
  · exact absurd hmark (by decide +kernel)
  · exact absurd hmark (by decide +kernel)

theorem loads_single (f v : String) : JsonText.loads (JsonText.dumps [(f, v)]) = some [(f, v)] :=
  JsonText.loads_dumps (List.nodup_singleton f)

/-! ## Reading and writing a secret -/

theorem Holds.ends_get (h : credentials.Holds f passwords secrets) (hname : PlainName name)
    {Q : Except PyError (Dict String) → Passwords → Prop} :
    Ends (credentials.get name) passwords Q ↔
      Q (match secrets name with
        | some v => .ok [(f, v)]
        | none => .error credentialNotExist) passwords := by
  rw [get, ends_bind, h.tidy.ends_getPassword hname, h.clear hname]
  cases secrets name with
  | some v =>
    rw [Option.map_some, readResult]
    dsimp only
    rw [load, loads_single]
    exact ends_liftExcept _
  | none => exact Iff.rfl

theorem Holds.ends_getStored (h : credentials.Holds f passwords secrets) (hname : PlainName name)
    {Q : Except PyError (Option (Dict String)) → Passwords → Prop} :
    Ends (credentials.getStored name) passwords Q ↔
      Q (.ok ((secrets name).map fun v ↦ [(f, v)])) passwords := by
  rw [getStored, ends_tryCatch, ends_bind, h.ends_get hname]
  cases secrets name with
  | some v => exact ends_pure _
  | none =>
    dsimp only
    rw [if_pos rfl]
    exact ends_pure _

theorem Holds.ends_set (h : credentials.Holds f passwords secrets) (hname : PlainName name)
    {v : String} (hv : v ≠ "") : Ends (credentials.set name [(f, v)]) passwords fun r after ↦
      .ok () = r ∧ credentials.Holds f after (Function.update secrets name (some v)) := by
  refine (h.tidy.ends_setPassword hname (JsonText.dumps [(f, v)])).mono ?_
  rintro r after ⟨hr, htidy, hclear, hothers, -⟩
  rw [CredentialManager.untilEnd_sections_eq_iff.mpr (not_swallowed_dumps _)] at hclear
  have hsecret : some v ≠ some "" := fun heq ↦ hv (Option.some.inj heq)
  exact ⟨hr, h.update htidy hsecret hclear hothers⟩

theorem Holds.ends_delete (h : credentials.Holds f passwords secrets) (hname : PlainName name) :
    Ends (credentials.delete name) passwords fun r after ↦
      .ok () = r ∧ credentials.Holds f after (Function.update secrets name none) := by
  rw [delete, ends_tryCatch]
  refine (h.tidy.ends_deletePassword hname).mono ?_
  rintro r after ⟨rfl, htidy, hclear, hothers⟩
  have hafter : credentials.Holds f after (Function.update secrets name none) :=
    h.update htidy (Option.some_ne_none _).symm hclear hothers
  split_ifs
  · exact ⟨rfl, hafter⟩
  · dsimp only
    rw [if_pos rfl]
    exact ⟨rfl, hafter⟩

/-! ## Requests -/

theorem nonemptyStr?_some {v : String} (h : v ≠ "") : nonemptyStr? (some v) = some v := by
  rw [nonemptyStr?, Option.filter_some, if_pos (decide_eq_true h)]

theorem get_setKey {α : Type} (d : Dict α) (key : String) (value : α) (k : String) :
    Dict.get (setKey d key value) k = if k = key then some value else Dict.get d k :=
  lookup_setKey d key value k

/-- The secret in a field, if there is one: stars stand for another. -/
def incoming (value : Option String) : Option String :=
  (nonemptyStr? value).filter fun v ↦ v ≠ mask

theorem mask_ne_empty : mask ≠ "" := by decide

theorem incoming_mask : incoming (some mask) = none := by decide

theorem incoming_of_ne {v : String} (hempty : v ≠ "") (hmask : v ≠ mask) :
    incoming (some v) = some v := by
  rw [incoming, nonemptyStr?_some hempty, Option.filter_some, if_pos (decide_eq_true hmask)]

theorem incoming_ne_empty (value : Option String) : incoming value ≠ some "" := by
  intro h
  have hsome := (Option.filter_eq_some_iff.mp h).1
  exact (nonemptyStr?_eq_some_iff.mp hsome).2 rfl

/-- The data with stars in the field. -/
def withMask (data : Fields) (f : String) : Fields :=
  if Dict.get data f = some mask then data else setKey data f mask

theorem get_withMask (data : Fields) (f key : String) :
    Dict.get (withMask data f) key = if key = f then some mask else Dict.get data key := by
  rw [withMask]
  split_ifs with hmask hkey hkey
  · rw [hkey, hmask]
  · rfl
  · rw [get_setKey, if_pos hkey]
  · rw [get_setKey, if_neg hkey]

section Requests

variable (hone : credentials.encryptedFieldNames = [f])
  (h : credentials.Holds f passwords secrets) (hname : PlainName name)

include hone h hname

theorem Holds.ends_encryptForCreate {v : String} (hv : v ≠ "")
    (hdata : Dict.get data f = some v) :
    Ends (credentials.encryptForCreate name data) passwords fun r after ↦
      .ok (setKey data f mask) = r ∧
        credentials.Holds f after (Function.update secrets name (some v)) := by
  have hencrypting : setKey ([] : Dict String) f v ≠ [] := List.cons_ne_nil _ _
  rw [encryptForCreate, hone, List.foldl_cons, List.foldl_nil]
  dsimp only
  rw [hdata, nonemptyStr?_some hv]
  dsimp only
  rw [if_pos hencrypting, ends_bind]
  refine (h.ends_set hname hv).mono ?_
  rintro r after ⟨rfl, hafter⟩
  exact ⟨rfl, hafter⟩

omit hone in
theorem Holds.ends_encryptField {w : String} (hw : secrets name = some w)
    (hdata : Dict.get data f ≠ some "")
    {Q : Except PyError (Fields × Dict String) → Passwords → Prop} :
    Ends (credentials.encryptField name data [] f) passwords Q ↔
      Q (.ok (withMask data f, [(f, (incoming (Dict.get data f)).getD w)])) passwords := by
  have hstored : storedField (some [(f, w)]) f = some w := by
    rw [storedField, Option.getD_some, Dict.get, List.lookup_cons_self]
    exact nonemptyStr?_some fun hempty ↦ h.nonempty (hempty ▸ hw)
  rw [encryptField, withMask]
  cases hget : Dict.get data f with
  | none =>
    dsimp only
    rw [ends_bind, h.ends_getStored hname, hw, Option.map_some]
    dsimp only
    rw [hstored]
    exact ends_pure _
  | some v =>
    have hv : v ≠ "" := fun hempty ↦ hdata (hget.trans (congrArg some hempty))
    dsimp only
    rw [if_pos hv]
    by_cases hmask : v = mask
    · rw [if_neg (not_not.mpr hmask), ends_bind, h.ends_getStored hname, hw, Option.map_some]
      dsimp only
      rw [hstored, if_pos (congrArg some hmask), hmask, incoming_mask]
      exact ends_pure _
    · rw [if_pos hmask, if_neg fun heq ↦ hmask (Option.some.inj heq), incoming_of_ne hv hmask]
      exact ends_pure _

/-- **`encrypt_for_update`**, for a stanza with a secret. -/
theorem Holds.ends_encryptForUpdate {w : String} (hw : secrets name = some w)
    (hdata : Dict.get data f ≠ some "") :
    Ends (credentials.encryptForUpdate name data) passwords fun r after ↦
      .ok (withMask data f) = r ∧ credentials.Holds f after
        (Function.update secrets name (some ((incoming (Dict.get data f)).getD w))) := by
  have hsecret : (incoming (Dict.get data f)).getD w ≠ "" := by
    cases hin : incoming (Dict.get data f) with
    | none =>
      rw [Option.getD_none]
      exact fun hempty ↦ h.nonempty (hempty ▸ hw)
    | some v => exact fun hempty ↦ incoming_ne_empty _ (hin.trans (congrArg some hempty))
  rw [encryptForUpdate, hone, if_neg (List.cons_ne_nil f []), ends_bind, encryptFields, ends_bind,
    h.ends_encryptField hname hw hdata]
  dsimp only
  rw [encryptFields, ends_pure]
  dsimp only
  rw [if_pos (List.cons_ne_nil _ _), ends_bind]
  refine (h.ends_set hname hsecret).mono ?_
  rintro r after ⟨rfl, hafter⟩
  exact ⟨rfl, hafter⟩

omit hone hname in
theorem Holds.update_self {v : String} (hv : secrets name = some v) :
    credentials.Holds f passwords (Function.update secrets name (some v)) := by
  rwa [← hv, Function.update_eq_self]

omit hone h hname in
theorem sameDict_single {v w : String} : sameDict [(f, w)] [(f, v)] = true ↔ w = v := by
  have hlength : [(f, w)].length = [(f, v)].length := rfl
  rw [sameDict, decide_eq_true_iff, and_iff_right hlength, List.forall_mem_singleton, Dict.get,
    List.lookup_cons_self, Option.some.injEq, eq_comm]

/-- **`decrypt_for_get`**, of a field that is not empty: the secret in the file counts, and the
stored one where there are stars. -/
theorem Holds.ends_decryptForGet {v c : String} (hv : v ≠ "") (hdata : Dict.get data f = some v)
    (hc : (incoming (some v)).or (secrets name) = some c) :
    Ends (credentials.decryptForGet name data) passwords fun r after ↦
      (∃ revealed, .ok (if v = mask then [] else [(f, mask)], revealed) = r ∧
        ∀ key, Dict.get revealed key = if key = f then some c else Dict.get data key) ∧
      credentials.Holds f after (Function.update secrets name (some c)) := by
  have hsame (key : String) : v = c →
      Dict.get data key = if key = f then some c else Dict.get data key := by
    rintro rfl
    split_ifs with hkey
    · rw [hkey, hdata]
    · rfl
  rw [decryptForGet, hone, if_neg (List.cons_ne_nil f []), ends_bind, h.ends_getStored hname]
  by_cases hmask : v = mask
  · rw [hmask, incoming_mask, Option.none_or] at hc
    rw [hc, if_pos hmask, Option.map_some]
    have hget : Dict.getItem [(f, c)] f = .ok c := by
      rw [Dict.getItem, Dict.get, List.lookup_cons_self]
    have hfields : decryptFields [(f, c)] data [] [] [f] =
        .ok (setKey data f c, [(f, c)], []) := by
      rw [decryptFields, hdata, nonemptyStr?_some hv]
      dsimp only
      rw [if_neg (not_not.mpr hmask), hget]
      rfl
    dsimp only
    rw [hfields, liftExcept_ok_bind, if_neg fun hset ↦ hset.2 (sameDict_single.mpr rfl)]
    exact ⟨⟨_, rfl, fun key ↦ get_setKey data f c key⟩, h.update_self hc⟩
  · rw [incoming_of_ne hv hmask, Option.some_or, Option.some.injEq] at hc
    subst hc
    rw [if_neg hmask]
    cases hsecret : secrets name with
    | some w =>
      have hfields : decryptFields [(f, w)] data [] [] [f] = .ok (data, [(f, v)], [(f, mask)]) := by
        rw [decryptFields, hdata, nonemptyStr?_some hv]
        dsimp only
        rw [if_pos hmask]
        rfl
      rw [Option.map_some]
      dsimp only
      rw [hfields, liftExcept_ok_bind]
      by_cases hset : w = v
      · rw [if_neg fun hne ↦ hne.2 (sameDict_single.mpr hset)]
        exact ⟨⟨_, rfl, fun key ↦ hsame key rfl⟩, h.update_self (hset ▸ hsecret)⟩
      · rw [if_pos ⟨List.cons_ne_nil _ _, mt sameDict_single.mp hset⟩, ends_bind]
        refine (h.ends_set hname hv).mono ?_
        rintro r after ⟨rfl, hafter⟩
        exact ⟨⟨_, rfl, fun key ↦ hsame key rfl⟩, hafter⟩
    | none =>
      have hfields : encryptRaw data [f] = ([(f, v)], [(f, mask)]) := by
        rw [encryptRaw, List.foldl_cons, List.foldl_nil, hdata, nonemptyStr?_some hv]
        dsimp only
        rw [if_pos hmask]
        rfl
      rw [Option.map_none]
      dsimp only
      rw [hfields]
      dsimp only
      rw [if_pos (List.cons_ne_nil _ _), ends_bind]
      refine (h.ends_set hname hv).mono ?_
      rintro r after ⟨rfl, hafter⟩
      exact ⟨⟨_, rfl, fun key ↦ hsame key rfl⟩, hafter⟩

end Requests

/-! ## A stanza of a response -/

/-- Once nothing is stored any more, the fields that are not encrypted change nothing. -/
theorem foldl_filterField_of_nil {fields : List (String × Bool)} (encrypting : Dict String)
    (h : (fields.filter Prod.snd).map Prod.fst = []) :
    fields.foldl filterField (data, [], encrypting) = (data, [], encrypting) := by
  induction fields with
  | nil => rfl
  | cons field fields ih =>
    obtain ⟨field, isEncrypted⟩ := field
    cases isEncrypted with
    | false => exact ih h
    | true => exact absurd h (List.cons_ne_nil _ _)

theorem foldl_filterField {fields : List (String × Bool)} {encrypted : Dict String} {v : String}
    (h : (fields.filter Prod.snd).map Prod.fst = [f]) (hencrypted : ∀ p ∈ encrypted, p.1 = f)
    (hdata : Dict.get data f = some v) (hempty : v ≠ "") (hmask : v ≠ mask) :
    fields.foldl filterField (data, encrypted, []) = (setKey data f mask, [], [(f, v)]) := by
  induction fields generalizing encrypted with
  | nil => exact absurd h (List.cons_ne_nil _ _).symm
  | cons field fields ih =>
    obtain ⟨field, isEncrypted⟩ := field
    cases isEncrypted with
    | false => exact ih h fun p hp ↦ hencrypted p (List.mem_of_mem_filter hp)
    | true =>
      obtain ⟨rfl, hrest⟩ := List.cons_eq_cons.mp h
      have hdel : Dict.del encrypted field = [] :=
        List.filter_eq_nil_iff.mpr fun p hp ↦ by simpa using hencrypted p hp
      rw [List.foldl_cons, filterField, hdata]
      dsimp only
      rw [if_neg (not_or.mpr ⟨hmask, hempty⟩), hdel]
      exact foldl_filterField_of_nil _ hrest

/-- **`decrypt`**, of a secret that stands in the file. -/
theorem Holds.ends_decrypt (hone : credentials.encryptedFieldNames = [f])
    (h : credentials.Holds f passwords secrets) (hname : PlainName name) {v : String}
    (hdata : Dict.get data f = some v) (hempty : v ≠ "") (hmask : v ≠ mask) :
    Ends (credentials.decrypt name data) passwords fun r after ↦
      .ok ([(f, mask)], setKey (setKey data f mask) f v) = r ∧
        credentials.Holds f after (Function.update secrets name (some v)) := by
  have hencrypted : ∀ p ∈ ((secrets name).map fun w ↦ [(f, w)]).getD [], p.1 = f := by
    cases secrets name with
    | none => exact fun p hp ↦ absurd hp List.not_mem_nil
    | some w => exact fun p hp ↦ congrArg Prod.fst (List.mem_singleton.mp hp)
  have hmerge : credentials.mergeFields [] [(f, v)] = ([(f, mask)], [(f, v)]) := by
    have hget : Dict.get [(f, v)] f = some v := List.lookup_cons_self
    rw [mergeFields, hone, List.foldl_cons, List.foldl_nil]
    dsimp only
    rw [hget]
    dsimp only
    rw [if_pos hempty]
    rfl
  rw [decrypt, ends_bind, h.ends_getStored hname]
  dsimp only
  rw [filterFields, foldl_filterField hone hencrypted hdata hempty hmask]
  dsimp only
  rw [hmerge]
  dsimp only
  rw [if_pos (Or.inr (List.cons_ne_nil _ _)), ends_bind]
  refine (h.ends_set hname hempty).mono ?_
  rintro r after ⟨rfl, hafter⟩
  exact ⟨rfl, hafter⟩

end RestCredentials

end MsSecurity
