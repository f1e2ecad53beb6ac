import MsSecurity.Secrets.AllSecrets
import MsSecurity.Secrets.RestHandler

/-!
# What a page stands for

The file and the passwords together stand for the fields of each stanza (`view`): the secret is what
stands in the file, and where stars stand it is what is stored. Taking up a secret and putting stars
in its place changes the two sides and leaves the view as it is.
-/

namespace MsSecurity

open InputStanza (Fields merge get_merge)
open RestCredentials

namespace RestHandler

variable {handler : RestHandler} {f : String} {s : ConfServer} {name : String}
  {secrets secrets' : String → Option String} {content body : Fields}

/-! ## The view -/

/-- The fields of a stanza, with its secret. -/
def reveal (f : String) (secret : Option String) (content : Fields) (key : String) :
    Option String :=
  if key = f then (incoming (Dict.get content f)).or secret else Dict.get content key

/-- The fields of each stanza. -/
abbrev Known := String → Option (String → Option String)

/-- What the file and the secrets stand for. -/
def view (f : String) (s : ConfServer) (secrets : String → Option String) : Known :=
  fun name ↦ (Dict.get s.conf name).map (reveal f (secrets name))

theorem reveal_congr {content' : Fields}
    (h : ∀ key, Dict.get content' key = if key = f then some mask else Dict.get content key)
    (secret : Option String) :
    reveal f secret content' = Function.update (reveal f secret content) f secret := by
  funext key
  by_cases hkey : key = f
  · subst hkey
    rw [reveal, if_pos rfl, h, if_pos rfl, incoming_mask, Option.none_or, Function.update_self]
  · rw [Function.update_of_ne hkey, reveal, reveal, if_neg hkey, if_neg hkey, h, if_neg hkey]

/-- Secrets that have been taken up, or are as they were. -/
def TakenUp (f : String) (s : ConfServer) (secrets secrets' : String → Option String) : Prop :=
  ∀ name, secrets' name = secrets name ∨ ∃ content, Dict.get s.conf name = some content ∧
    secrets' name = current f secrets (name, content)

theorem TakenUp.view_eq (h : TakenUp f s secrets secrets') :
    view f s secrets' = view f s secrets := by
  funext name
  rcases h name with hsame | ⟨content, hcontent, hcurrent⟩
  · rw [view, view, hsame]
  · rw [view, view, hcontent, hcurrent, Option.map_some, Option.map_some]
    refine congrArg some (funext fun key ↦ ?_)
    rw [reveal, reveal, current]
    split_ifs
    · rw [← Option.or_assoc, Option.or_self]
    · rfl

theorem takenUp_update (hcontent : Dict.get s.conf name = some content) :
    TakenUp f s secrets (Function.update secrets name (current f secrets (name, content))) := by
  intro other
  by_cases hother : other = name
  · exact Or.inr ⟨content, by rw [hother, hcontent], by rw [hother, Function.update_self]⟩
  · exact Or.inl (Function.update_of_ne hother _ _)

theorem takenUp_absorb : TakenUp f s secrets (absorb f s.conf secrets) := by
  intro name
  rw [absorb, ← Dict.get]
  cases hcontent : Dict.get s.conf name with
  | none => exact Or.inl rfl
  | some content => exact Or.inr ⟨content, rfl, rfl⟩

/-! ## Consistent states -/

/-- What is stored are secrets, and every stanza has one, in the file or stored. -/
structure Consistent (handler : RestHandler) (f : String) (s : ConfServer)
    (secrets : String → Option String) : Prop where
  holds : handler.credentials.Holds f s.passwords secrets
  nodup : (s.conf.map Prod.fst).Nodup
  kept : ∀ entry ∈ s.conf, Kept f secrets entry
  unmasked : ∀ entry ∈ s.conf, ∀ key, key ≠ f → Dict.get entry.2 key ≠ some mask

theorem Consistent.mem_iff (h : handler.Consistent f s secrets) :
    (name, content) ∈ s.conf ↔ Dict.get s.conf name = some content := mem_iff_lookup h.nodup

theorem Consistent.kept_of_get (h : handler.Consistent f s secrets)
    (hcontent : Dict.get s.conf name = some content) : Kept f secrets (name, content) :=
  h.kept _ (h.mem_iff.mpr hcontent)

theorem Consistent.passwords (h : handler.Consistent f s secrets) {after : Passwords}
    (hafter : handler.credentials.Holds f after secrets')
    (hkept : ∀ name, Dict.get s.conf name ≠ none → secrets name ≠ none → secrets' name ≠ none) :
    handler.Consistent f { s with passwords := after } secrets' where
  holds := hafter
  nodup := h.nodup
  kept entry hmem := by
    obtain ⟨hname, v, hv, hempty, hmask⟩ := h.kept entry hmem
    have hthere : Dict.get s.conf entry.1 ≠ none := by
      rw [h.mem_iff.mp hmem]
      exact Option.some_ne_none entry.2
    exact ⟨hname, v, hv, hempty, fun hstars ↦ hkept _ hthere (hmask hstars)⟩
  unmasked := h.unmasked

theorem Consistent.passwords_update (h : handler.Consistent f s secrets) {after : Passwords}
    {c : String} (hafter : handler.credentials.Holds f after
      (Function.update secrets name (some c))) :
    handler.Consistent f { s with passwords := after } (Function.update secrets name (some c)) := by
  refine h.passwords hafter fun other _ hother ↦ ?_
  rw [Function.update_apply]
  split_ifs
  · exact Option.some_ne_none c
  · exact hother

theorem Consistent.store (h : handler.Consistent f s secrets)
    (hcontent : Dict.get s.conf name = some content) {c : String}
    (hc : current f secrets (name, content) = some c) {after : Passwords}
    (hafter : handler.credentials.Holds f after (Function.update secrets name (some c))) :
    handler.Consistent f { s with passwords := after } (Function.update secrets name (some c)) ∧
      view f { s with passwords := after } (Function.update secrets name (some c)) =
        view f s secrets ∧
      Function.update secrets name (some c) name =
        current f (Function.update secrets name (some c)) (name, content) := by
  have htaken : TakenUp f s secrets
      (Function.update secrets name (current f secrets (name, content))) := takenUp_update hcontent
  rw [hc] at htaken
  refine ⟨h.passwords_update hafter, htaken.view_eq, ?_⟩
  rw [current, Function.update_self, ← hc, current, ← Option.or_assoc, Option.or_self]

theorem Consistent.write (h : handler.Consistent f s secrets)
    (hkept : Kept f secrets (name, merge body ((Dict.get s.conf name).getD [])))
    (hbody : ∀ key, key ≠ f → Dict.get body key ≠ some mask) :
    handler.Consistent f (s.write name body) secrets := by
  have hmem {other : String} {content : Fields}
      (hin : (other, content) ∈ (s.write name body).conf) :
      other = name ∧ content = merge body ((Dict.get s.conf name).getD []) ∨
        (other, content) ∈ s.conf := by
    have hnodup := nodup_setKey name (merge body ((Dict.get s.conf name).getD [])) h.nodup
    have hlookup := (mem_iff_lookup hnodup).mp hin
    rw [lookup_setKey] at hlookup
    split_ifs at hlookup with hother
    · exact Or.inl ⟨hother, (Option.some.inj hlookup).symm⟩
    · exact Or.inr ((mem_iff_lookup h.nodup).mpr hlookup)
  refine ⟨h.holds, nodup_setKey _ _ h.nodup, ?_, ?_⟩
  · rintro ⟨other, content⟩ hin
    rcases hmem hin with ⟨rfl, rfl⟩ | hin
    · exact hkept
    · exact h.kept _ hin
  · rintro ⟨other, content⟩ hin key hkey
    rcases hmem hin with ⟨rfl, rfl⟩ | hin
    · rw [get_merge, Ne, Option.or_eq_some_iff, not_or, not_and]
      refine ⟨hbody key hkey, fun _ ↦ ?_⟩
      cases hcontent : Dict.get s.conf other with
      | none => exact (Option.some_ne_none _).symm
      | some content => exact h.unmasked _ (h.mem_iff.mpr hcontent) key hkey
    · exact h.unmasked _ hin key hkey

theorem view_write : view f (s.write name body) secrets = Function.update (view f s secrets) name
    (some (reveal f (secrets name) (merge body ((Dict.get s.conf name).getD [])))) := by
  funext other
  rw [view, ConfServer.write, Dict.get, lookup_setKey]
  split_ifs with hother
  · rw [hother, Function.update_self, Option.map_some]
  · rw [Function.update_of_ne hother, view, Dict.get]

end RestHandler

end MsSecurity
