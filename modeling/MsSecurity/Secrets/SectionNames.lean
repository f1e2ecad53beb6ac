import MsSecurity.Secrets.CredentialManager

/-!
# The names of sections

A section is found by its name. The separator is the only part of the name with backticks, so that
the pattern takes it apart in one way, and the parts tell the user and the number.
-/

namespace MsSecurity

namespace CredentialManager

/-! ## The separator in a text -/

theorem afterPrefix_eq_some_iff {start text rest : List Char} :
    afterPrefix start text = some rest ↔ text = start ++ rest := by
  induction start generalizing text with
  | nil => rw [afterPrefix, Option.some.injEq, List.nil_append]
  | cons c start ih =>
    cases text with
    | nil => simp [afterPrefix]
    | cons d text =>
      rw [afterPrefix, List.cons_append, List.cons.injEq]
      split_ifs with hc
      · rw [ih, and_iff_right hc.symm]
      · exact iff_of_false not_false fun h ↦ hc h.1.symm

theorem count_sep_append (text : List Char) :
    (sep.toList ++ text).count '`' = text.count '`' + 4 := by
  rw [List.count_append, Nat.add_comm]
  rfl

theorem afterPrefix_sep_eq_none {text : List Char} (h : text.count '`' < 4) :
    afterPrefix sep.toList text = none := by
  refine Option.eq_none_iff_forall_ne_some.mpr fun rest hrest ↦ ?_
  rw [afterPrefix_eq_some_iff.mp hrest, count_sep_append] at h
  omega

theorem matchSection_eq_none {text : List Char} (h : text.count '`' < 4) :
    matchSection text = none := by
  induction text with
  | nil => rfl
  | cons c text ih =>
    have htext : text.count '`' < 4 := (List.count_le_count_cons).trans_lt h
    rw [matchSection, ih htext, afterPrefix_sep_eq_none htext]
    exact ite_self none

/-! ## Numbers -/

theorem isDigit_toString {n : ℕ} {c : Char} (h : c ∈ (toString n).toList) : c.isDigit := by
  have hdigits : c ∈ (Nat.repr n).toList := h
  rw [Nat.toList_repr] at hdigits
  exact Nat.isDigit_of_mem_toDigits (by decide) (by decide) hdigits

theorem leadingDigits_append {digits : List Char} (h : ∀ c ∈ digits, c.isDigit) {text : List Char}
    (htext : leadingDigits text = []) :
    leadingDigits (digits ++ text) = digits.map fun c ↦ c.toNat - 48 := by
  induction digits with
  | nil => exact htext
  | cons c digits ih =>
    rw [List.forall_mem_cons] at h
    rw [List.cons_append, leadingDigits, decimalDigit?_of_isDigit h.1, ih h.2]
    rfl

theorem foldl_digits (digits : List Char) (n : ℕ) :
    (digits.map fun c ↦ c.toNat - 48).foldl (fun value d ↦ 10 * value + d) n =
      Nat.ofDigitChars 10 digits n := by
  induction digits generalizing n with
  | nil => rfl
  | cons c digits ih => exact (ih _).trans (Nat.ofDigitChars_cons ..).symm

theorem foldl_leadingDigits_toString {n : ℕ} {text : List Char} (htext : leadingDigits text = []) :
    (leadingDigits ((toString n).toList ++ text)).foldl (fun value d ↦ 10 * value + d) 0 = n := by
  rw [leadingDigits_append (fun c ↦ isDigit_toString) htext, foldl_digits]
  change Nat.ofDigitChars 10 (Nat.repr n).toList 0 = n
  rw [Nat.toList_repr]
  exact Nat.ofDigitChars_toDigits (by decide) (by decide)

theorem toString_nat_ne_nil (n : ℕ) : (toString n).toList ≠ [] := by
  change (Nat.repr n).toList ≠ []
  rw [Nat.toList_repr]
  exact List.ne_nil_of_length_pos Nat.length_toDigits_pos

theorem leadingDigits_toString_ne_nil (n : ℕ) {text : List Char}
    (htext : leadingDigits text = []) : leadingDigits ((toString n).toList ++ text) ≠ [] := by
  rw [leadingDigits_append (fun c ↦ isDigit_toString) htext]
  exact mt List.map_eq_nil_iff.mp (toString_nat_ne_nil n)

/-! ## Names -/

theorem matchSection_section {name : List Char} (hne : name ≠ [])
    (hname : ∀ c ∈ name, c ≠ '`' ∧ c ≠ '\n') (index : ℕ) :
    matchSection (name ++ sep.toList ++ (toString index).toList ++ [':']) = some (name, index) := by
  have hcolon : leadingDigits [':'] = [] := by decide
  have hcount : ((toString index).toList ++ [':']).count '`' = 0 := by
    refine List.count_eq_zero.mpr fun hmem ↦ ?_
    rcases List.mem_append.mp hmem with hdigit | hmem
    · exact absurd (isDigit_toString hdigit) (by decide)
    · exact absurd hmem (by decide)
  have hdigits := foldl_leadingDigits_toString (n := index) hcolon
  have hsome := leadingDigits_toString_ne_nil index hcolon
  rw [List.append_assoc, List.append_assoc]
  generalize (toString index).toList ++ [':'] = rest at hcount hdigits hsome
  -- nothing in the separator and after it is a match
  have hsep : matchSection (sep.toList ++ rest) = none := by
    have hcons : sep.toList ++ rest = '`' :: ((sep.toList.drop 1) ++ rest) := rfl
    have htail : ((sep.toList.drop 1) ++ rest).count '`' < 4 := by
      rw [List.count_append, hcount]
      decide
    rw [hcons, matchSection, matchSection_eq_none htail, afterPrefix_sep_eq_none htail]
    exact ite_self none
  induction name with
  | nil => exact absurd rfl hne
  | cons c name ih =>
    rw [List.forall_mem_cons] at hname
    rw [List.cons_append, matchSection, if_neg hname.1.2]
    by_cases hnil : name = []
    · subst hnil
      rw [List.nil_append, hsep, afterPrefix_eq_some_iff.mpr rfl, Option.map_some]
      obtain ⟨digit, digits, heq⟩ := List.exists_cons_of_ne_nil hsome
      rw [heq] at hdigits ⊢
      exact congrArg some (congrArg _ hdigits)
    · rw [ih hnil hname.2]

theorem backtick_notMem {user : String} (h : PlainName user) : '`' ∉ user.toList :=
  fun hmem ↦ h.plain _ hmem (by decide)

theorem toList_partialUser (user : String) (index : ℕ) : (partialUser user index).toList =
    user.toList ++ sep.toList ++ (toString index).toList := by
  rw [partialUser, String.toList_append, String.toList_append]

theorem backtick_mem_partialUser (user : String) (index : ℕ) :
    '`' ∈ (partialUser user index).toList := by
  rw [toList_partialUser]
  exact List.mem_append_left _ (List.mem_append_right _ (by decide))

/-- The name of a user is not that of a section. -/
theorem ne_partialUser {user : String} (h : PlainName user) (other : String) (index : ℕ) :
    user ≠ partialUser other index := by
  rintro rfl
  exact backtick_notMem h (backtick_mem_partialUser other index)

theorem takeWhile_sep {user : String} (h : PlainName user) (rest : List Char) :
    (user.toList ++ sep.toList ++ rest).takeWhile (· ≠ '`') = user.toList := by
  have hall : ∀ c ∈ user.toList, decide (c ≠ '`') = true := by
    intro c hc
    refine decide_eq_true ?_
    rintro rfl
    exact backtick_notMem h hc
  rw [List.append_assoc, List.takeWhile_append_of_pos hall]
  have hsep : ∀ rest, (sep.toList ++ rest).takeWhile (fun c ↦ decide (c ≠ '`')) = [] :=
    fun _ ↦ rfl
  rw [hsep, List.append_nil]

theorem user_eq_of_append_eq {user other : String} (h : PlainName user) (h' : PlainName other)
    {rest rest' : List Char}
    (heq : user.toList ++ sep.toList ++ rest = other.toList ++ sep.toList ++ rest') :
    user = other := by
  have htake := congrArg (List.takeWhile (· ≠ '`')) heq
  rw [takeWhile_sep h, takeWhile_sep h'] at htake
  exact String.toList_inj.mp htake

/-- The name of a section tells the user and the number. -/
theorem partialUser_inj {user other : String} {i j : ℕ} (h : PlainName user) (h' : PlainName other)
    (heq : partialUser user i = partialUser other j) : user = other ∧ i = j := by
  have hlist := congrArg String.toList heq
  rw [toList_partialUser, toList_partialUser] at hlist
  have huser := user_eq_of_append_eq h h' hlist
  refine ⟨huser, ?_⟩
  subst huser
  exact toString_nat_injective (String.toList_inj.mp (List.append_cancel_left hlist))

theorem beforeSep_partialUser {user : String} (h : PlainName user) (index : ℕ) :
    String.ofList (beforeSep (partialUser user index).toList) = user := by
  rw [toList_partialUser, List.append_assoc]
  have huser := backtick_notMem h
  rw [← String.toList_inj, String.toList_ofList]
  generalize user.toList = user at huser
  induction user with
  | nil =>
    have hcons : ∀ rest, beforeSep (sep.toList ++ rest) = [] := by
      intro rest
      have hsep : sep.toList ++ rest = '`' :: (sep.toList.drop 1 ++ rest) := rfl
      rw [hsep, beforeSep, ← hsep, afterPrefix_eq_some_iff.mpr rfl]
      rfl
    exact hcons _
  | cons c user ih =>
    rw [List.mem_cons, not_or] at huser
    have hnone : afterPrefix sep.toList (c :: user ++ (sep.toList ++ (toString index).toList)) =
        none := by
      refine Option.eq_none_iff_forall_ne_some.mpr fun rest hrest ↦ ?_
      have heq := afterPrefix_eq_some_iff.mp hrest
      exact huser.1 (List.cons.inj heq).1.symm
    rw [List.cons_append] at hnone
    rw [List.cons_append, beforeSep, hnone, ih huser.2]
    rfl

variable (manager : CredentialManager)

/-- The name of what is stored for a user. -/
def stanzaName (user : String) : String := manager.realm ++ ":" ++ user ++ ":"

theorem stanzaName_injective : Function.Injective manager.stanzaName := by
  intro user other h
  have hlist := congrArg String.toList h
  simp only [stanzaName, String.toList_append, List.append_assoc] at hlist
  exact String.toList_inj.mp (List.append_cancel_right
    (List.append_cancel_left (List.append_cancel_left hlist)))

theorem sectionOf_partialUser {user : String} (h : PlainName user) (index : ℕ) (text : String) :
    sectionOf ((manager.realm, partialUser user index), text) =
      some (manager.stanzaName user, index) := by
  have hne : (manager.realm ++ ":" ++ user).toList ≠ [] := by
    rw [String.toList_append]
    exact fun hnil ↦ h.nonempty (String.toList_eq_nil_iff.mp (List.append_eq_nil_iff.mp hnil).2)
  have hplain : ∀ c ∈ (manager.realm ++ ":" ++ user).toList, c ≠ '`' ∧ c ≠ '\n' := by
    rw [String.toList_append, String.toList_append]
    intro c hc
    rcases List.mem_append.mp hc with hc | hc
    · rcases List.mem_append.mp hc with hc | hc
      · exact manager.plain c hc
      · rw [List.mem_singleton.mp hc]
        decide
    · have hspecial := h.plain c hc
      constructor
      · rintro rfl
        exact hspecial (by decide)
      · rintro rfl
        exact hspecial (by decide)
  have hname : (StoragePassword.name ((manager.realm, partialUser user index), text)).toList =
      (manager.realm ++ ":" ++ user).toList ++ sep.toList ++ (toString index).toList ++ [':'] := by
    rw [StoragePassword.name, StoragePassword.realm, StoragePassword.username, partialUser]
    simp only [String.toList_append, List.append_assoc]
    rfl
  rw [sectionOf, hname, matchSection_section hne hplain, Option.map_some]
  dsimp only
  rw [String.ofList_toList]
  rfl

/-- What an old version has stored for a user is no section. -/
theorem sectionOf_eq_none {user : String} (h : PlainName user) (text : String) :
    sectionOf ((manager.realm, user), text) = none := by
  rw [sectionOf, matchSection_eq_none, Option.map_none]
  have hzero : (StoragePassword.name ((manager.realm, user), text)).toList.count '`' = 0 := by
    refine List.count_eq_zero.mpr fun hmem ↦ ?_
    rw [StoragePassword.name, StoragePassword.realm, StoragePassword.username] at hmem
    simp only [String.toList_append, List.mem_append] at hmem
    rcases hmem with ((hmem | hmem) | hmem) | hmem
    · exact (manager.plain _ hmem).1 rfl
    · exact absurd hmem (by decide)
    · exact backtick_notMem h hmem
    · exact absurd hmem (by decide)
  rw [hzero]
  decide

end CredentialManager

end MsSecurity
