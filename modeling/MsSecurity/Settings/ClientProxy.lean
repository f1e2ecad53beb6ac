import MsSecurity.Python.Digits
import MsSecurity.Python.Quote

/-!
# The proxy that the HTTP client takes from a URL

`parse_url` finds the host and the port, and `get_auth_from_url` the credentials. Both look at the
part between the scheme and the path. Its last `@` ends the credentials, their first `:` ends the
name of the user, and a `:` that follows the host has the port behind it.
-/

namespace MsSecurity

/-! ## Partitions of a text -/

/-- What is before the first `sep`, and what is after it. -/
def partition? (sep : Char) : List Char → Option (List Char × List Char)
  | [] => none
  | c :: rest =>
    if c = sep then some ([], rest)
    else (partition? sep rest).map fun (before, after) ↦ (c :: before, after)

/-- What is before the last `sep`, and what is after it. -/
def rpartition? (sep : Char) : List Char → Option (List Char × List Char)
  | [] => none
  | c :: rest =>
    match rpartition? sep rest with
    | some (before, after) => some (c :: before, after)
    | none => if c = sep then some ([], rest) else none

section Partition

variable {sep : Char} {before after : List Char}

theorem partition?_append (h : sep ∉ before) :
    partition? sep (before ++ sep :: after) = some (before, after) := by
  induction before with
  | nil => rw [List.nil_append, partition?, if_pos rfl]
  | cons c before ih =>
    rw [List.mem_cons, not_or] at h
    rw [List.cons_append, partition?, if_neg (Ne.symm h.1), ih h.2]
    rfl

theorem rpartition?_eq_none (h : sep ∉ after) : rpartition? sep after = none := by
  induction after with
  | nil => rfl
  | cons c after ih =>
    rw [List.mem_cons, not_or] at h
    rw [rpartition?, ih h.2]
    exact if_neg (Ne.symm h.1)

theorem rpartition?_append (h : sep ∉ after) :
    rpartition? sep (before ++ sep :: after) = some (before, after) := by
  induction before with
  | nil =>
    rw [List.nil_append, rpartition?, rpartition?_eq_none h]
    exact if_pos rfl
  | cons c before ih => rw [List.cons_append, rpartition?, ih]

theorem exists_partition? {text : List Char} (h : sep ∈ text) :
    ∃ before after, text = before ++ sep :: after ∧ sep ∉ before := by
  obtain ⟨before, after, rfl, hbefore⟩ := List.eq_append_cons_of_mem h
  exact ⟨before, after, rfl, hbefore⟩

end Partition

/-! ## The parts of a URL -/

/-- What follows `http://`, up to one of the characters that end it. -/
def netloc (ends : List Char) (url : String) : List Char :=
  (url.toList.drop "http://".length).takeWhile fun c ↦ c ∉ ends

/-- The name of a host: no delimiter, and `%` only in escapes. -/
def isRegName : List Char → Bool
  | [] => true
  | '%' :: a :: b :: rest => (hexValue a).isSome && (hexValue b).isSome && isRegName rest
  | c :: rest => c ∉ ['[', ']', '%', ':', '/', '?', '#'] && isRegName rest

/-- A port: at most five digits after leading zeros, or nothing. -/
def portOf? (text : List Char) : Option (Option ℕ) :=
  if text = [] then some none
  else if text.all Char.isDigit ∧ (text.dropWhile (· = '0')).length ≤ 5 ∧
      digitsValue text ≤ 65535 then some (some (digitsValue text))
  else none

/-- Host and port. A host in brackets is left out. -/
def hostPort? (text : List Char) : Option (List Char × Option ℕ) :=
  match partition? ':' text with
  | some (host, port) => if isRegName host then (portOf? port).map fun port ↦ (host, port) else none
  | none => if isRegName text then some (text, none) else none

/-- The host and the port that `parse_url` finds; it writes the host in lower case. A host that is
not in ASCII is left out. -/
def parseUrl (url : String) : Option (String × Option ℕ) := do
  let authority := netloc ['\\', '/', '?', '#'] url
  let (host, port) ← hostPort? (((rpartition? '@' authority).map Prod.snd).getD authority)
  if host.all fun c ↦ c.toNat < 128 then return (String.ofList (host.map Char.toLower), port)
  else none

/-- `get_auth_from_url`. -/
def getAuthFromUrl (url : String) : String × String :=
  match (rpartition? '@' (netloc ['/', '?', '#'] url)).bind fun parts ↦ partition? ':' parts.1 with
  | some (username, password) =>
    (unquote (String.ofList username), unquote (String.ofList password))
  | none => ("", "")

/-- A proxy as the client uses it; an empty username stands for none. -/
structure ClientProxy where
  host : String
  port : Option ℕ
  username : String
  password : String
  deriving DecidableEq

/-- The proxy of a URL; the client raises where there is none. -/
def clientProxy (url : String) : Option ClientProxy := do
  let (host, port) ← parseUrl url
  if host = "" then none
  else return ⟨host, port, (getAuthFromUrl url).1, (getAuthFromUrl url).2⟩

/-! ## Parts without delimiters -/

section Parts

variable {url : String} {host port : List Char}

theorem netloc_eq {ends rest : List Char} (hurl : url.toList = "http://".toList ++ rest)
    (h : ∀ c ∈ rest, c ∉ ends) : netloc ends url = rest := by
  rw [netloc, hurl, ← String.length_toList, List.drop_left, List.takeWhile_eq_self_iff]
  exact fun c hc ↦ decide_eq_true (h c hc)

theorem isRegName_of_forall (h : ∀ c ∈ host, c ∉ ['[', ']', '%', ':', '/', '?', '#']) :
    isRegName host := by
  induction host with
  | nil => rfl
  | cons c host ih =>
    rw [List.forall_mem_cons] at h
    rw [isRegName, ih h.2, Bool.and_true]
    · exact decide_eq_true h.1
    · rintro a b rest rfl
      exact absurd h.1 (by decide)

theorem portOf?_of_isDigit (hne : port ≠ []) (h : ∀ c ∈ port, c.isDigit)
    (hle : digitsValue port ≤ 65535) : portOf? port = some (some (digitsValue port)) := by
  have hlength : (port.dropWhile (· = '0')).length ≤ 5 := length_dropWhile_le h (by omega)
  rw [portOf?, if_neg hne, if_pos ⟨List.all_eq_true.mpr h, hlength, hle⟩]

theorem portOf?_eq_none (h : ':' ∈ port) : portOf? port = none := by
  rw [portOf?, if_neg (List.ne_nil_of_mem h), if_neg]
  rintro ⟨hall, -⟩
  exact absurd (List.all_eq_true.mp hall ':' h) (by decide)

theorem hostPort?_append (hhost : ∀ c ∈ host, c ∉ ['[', ']', '%', '/', '?', '#'])
    (hne : port ≠ []) (hport : ∀ c ∈ port, c.isDigit) (hle : digitsValue port ≤ 65535) :
    hostPort? (host ++ ':' :: port) =
      if ':' ∈ host then none else some (host, some (digitsValue port)) := by
  split_ifs with hcolon
  · obtain ⟨before, after, rfl, hbefore⟩ := exists_partition? hcolon
    rw [hostPort?, List.append_assoc, List.cons_append, partition?_append hbefore]
    dsimp only
    rw [portOf?_eq_none (List.mem_append_right after List.mem_cons_self)]
    exact ite_self none
  · have hname : isRegName host := by
      refine isRegName_of_forall fun c hc hmem ↦ hhost c hc ?_
      have hne : c ≠ ':' := fun heq ↦ hcolon (heq ▸ hc)
      simpa [hne] using hmem
    rw [hostPort?, partition?_append hcolon]
    dsimp only
    rw [if_pos hname, portOf?_of_isDigit hne hport hle]
    rfl

end Parts

end MsSecurity
