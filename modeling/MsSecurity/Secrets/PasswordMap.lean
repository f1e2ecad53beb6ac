import MsSecurity.Secrets.StoredPasswords
import MsSecurity.Transition.Relational
import MsSecurity.Transition.Simulation

/-!
# Passwords as a map

Whatever earlier passwords have left behind, the manager of a realm is a map from users to
passwords: in every run of its operations it answers as the map does (`exists_map_run`). Saving is
not atomic, and in between the first sections are new and the others old (`clearOf_interrupted`).
-/

namespace MsSecurity

namespace CredentialManager

variable {manager : CredentialManager} {passwords : Passwords} {user : String}
  {known : String → Option String}

/-! ## One password -/

/-- A manager whose stanzas are listed last to first. -/
def someManager : CredentialManager := ⟨"realm", by simp, List.reverse, List.reverse_perm⟩

/-- An operation of the manager. -/
inductive PasswordOp
  | set (user password : String)
  | get (user : String)
  | delete (user : String)

namespace PasswordOp

/-- What an operation returns. -/
abbrev Value : PasswordOp → Type
  | set _ _ => Unit
  | get _ => String
  | delete _ => Unit

/-- What an operation returns or raises. -/
abbrev Result (op : PasswordOp) : Type := Except PyError op.Value

def run (manager : CredentialManager) : (op : PasswordOp) → EStateM PyError Passwords op.Value
  | set user password => manager.setPassword user password
  | get user => manager.getPassword user
  | delete user => manager.deletePassword user

/-- The operation is on a user, and sets nothing that is swallowed. -/
def Sound : PasswordOp → Prop
  | set user password => PlainName user ∧ ¬Swallowed password
  | get user => PlainName user
  | delete user => PlainName user

end PasswordOp

/-- What the manager does. -/
def managerStep (manager : CredentialManager) : Steps Passwords PasswordOp PasswordOp.Result :=
  fun passwords op result after ↦ Ends (op.run manager) passwords fun r t ↦ result = r ∧ after = t

/-- The same with a map. -/
def mapStep : Steps (String → Option String) PasswordOp PasswordOp.Result
  | known, .set user password, result, after =>
    result = .ok () ∧ after = Function.update known user (some password)
  | known, .get user, result, after =>
    result = readResult (known user) ∧ after = known
  | known, .delete user, result, after =>
    result = (if (known user).isSome then .ok () else .error credentialNotExist) ∧
      after = Function.update known user none

/-- The map is what is read. -/
def Reads (manager : CredentialManager) (passwords : Passwords) (known : String → Option String) :
    Prop :=
  manager.Tidy passwords ∧ ∀ user, PlainName user → known user = manager.clearOf passwords user

theorem Reads.update (h : manager.Reads passwords known) {after : Passwords}
    (htidy : manager.Tidy after) {clear : Option String}
    (huser : manager.clearOf after user = clear)
    (hothers : ∀ other, PlainName other → other ≠ user →
      manager.clearOf after other = manager.clearOf passwords other) :
    manager.Reads after (Function.update known user clear) := by
  refine ⟨htidy, fun other hother ↦ ?_⟩
  by_cases hne : other = user
  · rw [hne, Function.update_self, huser]
  · rw [Function.update_of_ne hne, h.2 other hother, hothers other hother hne]

theorem simulates_mapStep (manager : CredentialManager) :
    Simulates manager.managerStep mapStep PasswordOp.Sound manager.Reads := by
  intro passwords known op result after hreads hsound hstep
  cases op with
  | set user password =>
    have hstep : Ends (manager.setPassword user password) passwords fun r t ↦
        result = r ∧ after = t := hstep
    obtain ⟨_, _, ⟨rfl, htidy, hclear, hothers, -⟩, rfl, rfl⟩ :=
      ((hreads.1.ends_setPassword hsound.1 password).and hstep).exists
    refine ⟨_, ⟨rfl, rfl⟩, hreads.update htidy ?_ hothers⟩
    rw [hclear, untilEnd_sections_eq_iff.mpr hsound.2]
  | get user =>
    have hstep : Ends (manager.getPassword user) passwords fun r t ↦
        result = r ∧ after = t := hstep
    rw [hreads.1.ends_getPassword hsound] at hstep
    obtain ⟨rfl, rfl⟩ := hstep
    exact ⟨known, ⟨by rw [hreads.2 user hsound], rfl⟩, hreads⟩
  | delete user =>
    have hstep : Ends (manager.deletePassword user) passwords fun r t ↦
        result = r ∧ after = t := hstep
    obtain ⟨_, _, ⟨rfl, htidy, hclear, hothers⟩, rfl, rfl⟩ :=
      ((hreads.1.ends_deletePassword hsound).and hstep).exists
    refine ⟨_, ⟨?_, rfl⟩, hreads.update htidy hclear hothers⟩
    rw [hreads.2 user hsound]

/-- **The manager is a map.** From any tidy store, every run of its operations is one of the map
that is read at the start, with the same answers. -/
theorem exists_map_run (h : manager.Tidy passwords)
    {observed : List ((op : PasswordOp) × op.Result)} {after : Passwords}
    (hrun : ObservedRun manager.managerStep passwords observed after)
    (hsound : ∀ x ∈ observed, x.1.Sound) :
    ∃ known, ObservedRun mapStep (manager.clearOf passwords) observed known ∧
      ∀ user, PlainName user → known user = manager.clearOf after user := by
  obtain ⟨known, hmap, -, hknown⟩ := (simulates_mapStep manager).run hrun hsound
    ⟨h, fun _ _ ↦ rfl⟩
  exact ⟨known, hmap, hknown⟩

theorem exists_map_run_account : ∃ known,
    ObservedRun mapStep (someManager.clearOf []) [⟨.set "account" "secret", .ok ()⟩,
      ⟨.get "account", .ok "secret"⟩] known := by
  have haccount : PlainName "account" := by decide
  have hkept : ¬Swallowed "secret" := by decide +kernel
  have htidy := tidy_nil someManager
  obtain ⟨after, heq, hafter, hclear, -⟩ := (htidy.ends_setPassword haccount "secret").exists_of_ok
  have hset : Ends (someManager.setPassword "account" "secret") []
      fun r t ↦ .ok () = r ∧ after = t := by
    rw [Ends, heq]
    exact ⟨rfl, rfl⟩
  have hget : Ends (someManager.getPassword "account") after
      fun r t ↦ .ok "secret" = r ∧ after = t := by
    rw [hafter.ends_getPassword haccount, hclear, untilEnd_sections_eq_iff.mpr hkept]
    exact ⟨rfl, rfl⟩
  have hrun : ObservedRun someManager.managerStep [] [⟨.set "account" "secret", .ok ()⟩,
      ⟨.get "account", .ok "secret"⟩] after := .cons hset (.cons hget (.nil after))
  obtain ⟨known, hknown, -⟩ := exists_map_run htidy hrun <| by
    rw [List.forall_mem_cons, List.forall_mem_singleton]
    exact ⟨⟨haccount, hkept⟩, haccount⟩
  exact ⟨known, hknown⟩

end CredentialManager

end MsSecurity
