import MsSecurity.Api.Account
import MsSecurity.Python.Effect
import Mathlib.Data.List.Flatten
import Mathlib.Data.List.Nodup

/-!
# Modular alert actions

An alert action goes through the rows of a search result and puts what it learned into an event
buffer with `addevent`. `writeevents` writes the buffer to the spool directory, in files of at most
50000 events, each under one header of index, host and source. The buffer is only ever appended to.

A spool file is named by the time and a random number, and replaces a file of that name. `Takes`
says that the next files can be written and that none of them replaces one; then, and only then, the
spool gains the whole buffer (`spooled_writeChunks`, `takes_of_length_spooled`).
-/

namespace MsSecurity

/-! ## Rows of the search result -/

/-- A row, as `csv.DictReader` yields it: the last columns of a short row hold `None`. -/
abbrev Row := Dict (Option String)

namespace Row

/-- `row.get(key)`. -/
def get (row : Row) (key : String) : Option String := (Dict.get row key).join

/-- `row.setdefault(key, value)`. -/
def setDefault (row : Row) (key value : String) : Row :=
  match Dict.get row key with
  | some _ => row
  | none => row ++ [(key, some value)]

theorem get_setDefault_of_ne {row : Row} {key key' value : String} (h : key' ≠ key) :
    (row.setDefault key value).get key' = row.get key' := by
  rw [setDefault]
  split
  · rfl
  · have hlookup : Dict.get (row ++ [(key, some value)]) key' = Dict.get row key' := by
      rw [Dict.get, List.lookup_append, List.lookup_cons, beq_false_of_ne h]
      simp [Dict.get]
    rw [get, hlookup, get]

end Row

/-- `"%s" % v`. -/
def pyStr (v : Option String) : String := v.getD "None"

/-! ## The spool directory -/

/-- The index-time header of a spool file, quotation marks replaced. -/
structure Header where
  index : String
  host : String
  source : String
  deriving DecidableEq

/-- `get_string(input, default)`. -/
def getString (input : Option String) (default : String) : String :=
  match input with
  | some s => String.ofList (s.toList.map fun c ↦ if c = '"' then '_' else c)
  | none => default

/-- The header that `writeevents` builds from its arguments. -/
def Header.of (index host source : Option String) : Header where
  index := getString index "summary"
  host := getString host ""
  source := getString source ""

/-- `DEFAULT_HEADER`. -/
def Header.line (header : Header) : String :=
  "***SPLUNK*** index=\"" ++ header.index ++ "\" host=\"" ++ header.host ++ "\" source=\"" ++
    header.source ++ "\""

/-- An entry of the event buffer: its text is the line `idline` and then `raw`, as `json.dumps`
writes it. -/
structure ActionEvent where
  idline : String
  raw : Json
  /-- How many entries were added before it, which tells it from its equals. -/
  number : ℕ

/-- A file in the spool directory. -/
structure SpoolFile where
  name : String
  header : Header
  events : List ActionEvent

/-- `DEFAULT_BREAKER`. -/
def breaker : String := "==##~~##~~  1E8N3D4E6V5E7N2T9 ~~##~~##==\n"

/-- What the file holds. -/
def SpoolFile.text (file : SpoolFile) (dumps : Json → String) : String :=
  file.header.line ++
    String.join (file.events.map fun event ↦ "\n" ++ breaker ++ event.idline ++ dumps event.raw)

/-- The spool directory, and how many files were tried to be written to it. -/
structure Spool where
  files : List SpoolFile
  attempts : ℕ
  /-- Every file that was written, replaced since or not. -/
  written : List SpoolFile

/-- How writing a file turns out. -/
structure SpoolAnswer where
  /-- The time and the random number. -/
  stamp : String
  ok : Bool

/-- The name of the file that is written next after `n` attempts. -/
def spoolName (answers : ℕ → SpoolAnswer) (fext : String) (n : ℕ) : String :=
  (answers n).stamp ++ ".stash_" ++ fext

/-- Write a file, in place of one that has its name. -/
def Spool.write (spool : Spool) (file : SpoolFile) : Spool where
  files := spool.files.filter (fun other ↦ other.name ≠ file.name) ++ [file]
  attempts := spool.attempts + 1
  written := spool.written ++ [file]

@[simp] theorem Spool.attempts_write (spool : Spool) (file : SpoolFile) :
    (spool.write file).attempts = spool.attempts + 1 := rfl

/-- The loop of `writeevents`: the first file that cannot be written ends it. -/
def writeChunks (answers : ℕ → SpoolAnswer) (fext : String) (header : Header) :
    List (List ActionEvent) → Spool → Bool × Spool
  | [], spool => (true, spool)
  | chunk :: chunks, spool =>
    if (answers spool.attempts).ok then
      writeChunks answers fext header chunks
        (spool.write ⟨spoolName answers fext spool.attempts, header, chunk⟩)
    else (false, { spool with attempts := spool.attempts + 1 })

/-- `events[x : x + size] for x in range(0, len(events), size)`. -/
def chunksOf {α : Type} (size : ℕ) (events : List α) : List (List α) :=
  (List.range ((events.length + size - 1) / size)).map fun x ↦ (events.drop (x * size)).take size

/-- `DEFAULT_CHUNK`. -/
def defaultChunk : ℕ := 50000

/-- `\w` or a hyphen. -/
def extChar (c : Char) : Bool := c.isAlphanum || c = '_' || c = '-'

/-- The file extension, sanitized. -/
def sanitizeExt (fext : String) : String :=
  if fext = "" ∨ ¬fext.toList.all extChar ∨ 200 < fext.length then "common_action_model" else fext

/-! ## The action -/

/-- What stays the same while an action runs. -/
structure ActionSettings where
  actionName : String
  sid : String
  sidSnapshot : String

/-- A request to one of the APIs. -/
structure ApiRequest where
  method : String
  url : String
  accessToken : Json
  userAgent : String
  body : Json

/-- The instance of `ModularAction`, the spool directory, and the requests answered so far. -/
structure ActionState where
  origSid : Option String
  rid : String
  origRid : Option String
  events : List ActionEvent
  spool : Spool
  /-- The cache of `get_access_token`, last used first. -/
  tokens : List ((ApiUrls × String) × Json)
  calls : List (ApiRequest × Json)
  /-- How many answers were given, which is when the next one is. -/
  clock : ℕ

/-- The answers an action gets; those that depend on when they are asked for are numbered. -/
structure ActionServices where
  /-- `get_hostname_from_socket`. -/
  hostname : Option String
  currentVersion : Option String
  /-- `get_proxy` may raise. -/
  proxy : ℕ → Option PyError
  accessToken : ℕ → TokenRequest → Except PyError Json
  /-- The request and its status check, and the parsed content. -/
  request : ℕ → ApiRequest → Except PyError Json
  spool : ℕ → SpoolAnswer

abbrev Action := EStateM PyError ActionState

/-- The answer to whatever is asked next. -/
def ask {α : Type} (answer : ℕ → Except PyError α) : Action α := do
  let clock := (← get).clock
  modify fun s ↦ { s with clock := clock + 1 }
  liftExcept (answer clock)

/-- `update`. -/
def updateIds (settings : ActionSettings) (result : Row) : Action Unit := do
  modify fun s ↦ { s with
    origSid := (Dict.get result "orig_sid").getD (some "")
    origRid := (Dict.get result "orig_rid").getD (some "") }
  match result.get "rid" with
  | some rid =>
    modify fun s ↦ { s with
      rid := if settings.sidSnapshot ≠ "" then rid ++ "." ++ settings.sidSnapshot else rid }
  | none => throw (.other "InvalidResultID")

/-- `pre_handle`, which `get_events` applies to each row as it is reached. -/
def preHandle (settings : ActionSettings) (num : ℕ) (result : Row) : Action Row := do
  let result := result.setDefault "rid" (toString num)
  updateIds settings result
  return result

/-- The `action_idline` of `addevent`. -/
def idline (settings : ActionSettings) (s : ActionState) (sourcetype : String) : String :=
  let (sid, rid) :=
    if truthyStr s.origSid then (pyStr s.origSid, pyStr s.origRid) else (settings.sid, s.rid)
  "***Common Action Model*** orig_action_name=\"" ++ settings.actionName ++ "\" orig_sid=\"" ++
    sid ++ "\" orig_rid=\"" ++ rid ++ "\" sourcetype=\"" ++ sourcetype ++ "\"\n"

/-- `addevent`; the result is the entry added. -/
def addevent (settings : ActionSettings) (raw : Json) (sourcetype : String) :
    Action ActionEvent := do
  let s ← get
  let event : ActionEvent := ⟨idline settings s sourcetype, raw, s.events.length⟩
  modify fun s ↦ { s with events := s.events ++ [event] }
  return event

/-- `for x in xs: self.addevent(json.dumps(x), sourcetype)`. -/
def addevents (settings : ActionSettings) (sourcetype : String) :
    List Json → Action (List ActionEvent)
  | [] => return []
  | raw :: raws => do
    let event ← addevent settings raw sourcetype
    let events ← addevents settings sourcetype raws
    return event :: events

/-- `writeevents`. The buffer is left as it is. -/
def writeevents (services : ActionServices) (index host source : Option String) (fext : String) :
    Action Bool := do
  let s ← get
  if s.events.isEmpty then return false
  else
    let (written, spool) := writeChunks services.spool (sanitizeExt fext)
      (Header.of index host source) (chunksOf defaultChunk s.events) s.spool
    set { s with spool := spool }
    return written

/-- Both helpers' `get_access_token`, with its `lru_cache` of 8 entries. The key is what the calls
of one helper differ in. -/
def cachedAccessToken (services : ActionServices) (request : TokenRequest) (tenantId : String) :
    Action Json := do
  match (← get).tokens.lookup (request.urls, tenantId) with
  | some token =>
    modify fun s ↦ { s with
      tokens := ((request.urls, tenantId), token) ::
        s.tokens.filter fun entry ↦ entry.1 ≠ (request.urls, tenantId) }
    return token
  | none =>
    let _ ← liftExcept
      (required nonemptyStr? (some tenantId) "Parameter is used as a cache key" "")
    let token ← exceptWith (ask fun n ↦ services.accessToken n request) fun e ↦
      throw (.taExecutionFrom e 1)
    modify fun s ↦ { s with tokens := (((request.urls, tenantId), token) :: s.tokens).take 8 }
    return token

/-- A request to an API, with what comes before it. `raise_error_from_http_error` turns an error
status into a `TaExecutionException`. -/
def callApi (services : ActionServices) (method url : String) (accessToken body : Json) :
    Action Json := do
  let userAgent :=
    "M365DPartner-Splunk-MicrosoftSecurityAddOn/" ++ pyStr services.currentVersion
  let request : ApiRequest := ⟨method, url, accessToken, userAgent, body⟩
  ask fun n ↦ match services.proxy n with
    | some e => .error e
    | none => .ok ()
  let response ← ask fun n ↦ match services.request n request with
    | .error (.httpError status) => .error (.taExecutionFrom (.httpError status) 1)
    | answer => answer
  modify fun s ↦ { s with calls := s.calls ++ [(request, response)] }
  return response

/-- A process starts with an empty buffer, and has written no file. -/
structure ActionState.Fresh (s : ActionState) : Prop where
  events : s.events = []
  files : s.spool.files = []

/-- A process that has asked for nothing yet. -/
def newAction : ActionState where
  origSid := some ""
  rid := ""
  origRid := some ""
  events := []
  spool := ⟨[], 0, []⟩
  tokens := []
  calls := []
  clock := 0

/-! ## What is in the spool -/

/-- The events in the spool, each with its header. -/
def Spool.spooled (spool : Spool) : List (Header × ActionEvent) :=
  spool.files.flatMap fun file ↦ file.events.map fun event ↦ (file.header, event)

/-- The next `n` files after `a` attempts can be written, and their names are new. -/
def Takes (answers : ℕ → SpoolAnswer) (fext : String) (used : List String) (a n : ℕ) : Prop :=
  ∀ i < n, (answers (a + i)).ok ∧ spoolName answers fext (a + i) ∉ used ∧
    ∀ j < i, spoolName answers fext (a + j) ≠ spoolName answers fext (a + i)

section Spool

variable {answers : ℕ → SpoolAnswer} {fext : String} {header : Header} {used : List String}
  {a n : ℕ}

theorem takes_succ_iff : Takes answers fext used a (n + 1) ↔ (answers a).ok ∧
    spoolName answers fext a ∉ used ∧
    Takes answers fext (spoolName answers fext a :: used) (a + 1) n := by
  constructor
  · intro h
    obtain ⟨hok, hnew, -⟩ := h 0 (Nat.succ_pos n)
    refine ⟨hok, hnew, fun i hi ↦ ?_⟩
    obtain ⟨hoki, hnewi, hdistinct⟩ := h (i + 1) (Nat.succ_lt_succ hi)
    rw [show a + 1 + i = a + (i + 1) by omega]
    refine ⟨hoki, ?_, fun j hj ↦ ?_⟩
    · rw [List.mem_cons, not_or]
      exact ⟨(hdistinct 0 (Nat.succ_pos i)).symm, hnewi⟩
    · rw [show a + 1 + j = a + (j + 1) by omega]
      exact hdistinct (j + 1) (Nat.succ_lt_succ hj)
  · rintro ⟨hok, hnew, h⟩ i hi
    rcases i with - | i
    · exact ⟨hok, hnew, fun j hj ↦ absurd hj (Nat.not_lt_zero j)⟩
    · obtain ⟨hoki, hnewi, hdistinct⟩ := h i (Nat.lt_of_succ_lt_succ hi)
      rw [show a + 1 + i = a + (i + 1) by omega] at hoki hnewi hdistinct
      rw [List.mem_cons, not_or] at hnewi
      refine ⟨hoki, hnewi.2, fun j hj ↦ ?_⟩
      rcases j with - | j
      · exact fun h ↦ hnewi.1 h.symm
      · have hne := hdistinct j (Nat.lt_of_succ_lt_succ hj)
        rwa [show a + 1 + j = a + (j + 1) by omega] at hne

theorem Takes.congr {used' : List String} (h : Takes answers fext used a n)
    (hused : ∀ name, name ∈ used' → name ∈ used) : Takes answers fext used' a n := fun i hi ↦
  let ⟨hok, hnew, hdistinct⟩ := h i hi
  ⟨hok, fun hmem ↦ hnew (hused _ hmem), hdistinct⟩

theorem takes_of_injective (hok : ∀ k, (answers k).ok)
    (hinj : Function.Injective fun k ↦ (answers k).stamp)
    (hused : ∀ name ∈ used, ∃ k < a, name = spoolName answers fext k) :
    Takes answers fext used a n := by
  have hname : ∀ {j k}, spoolName answers fext j = spoolName answers fext k → j = k := by
    intro j k h
    have hlist := congrArg String.toList h
    simp only [spoolName, String.toList_append, List.append_assoc,
      List.append_cancel_right_eq] at hlist
    exact hinj (String.toList_injective hlist)
  intro i _
  refine ⟨hok _, fun hmem ↦ ?_, fun j hj h ↦ ?_⟩
  · obtain ⟨k, hk, h⟩ := hused _ hmem
    have := hname h
    omega
  · have := hname h
    omega

/-- The names in the spool. -/
def Spool.names (spool : Spool) : List String := spool.files.map SpoolFile.name

theorem Spool.mem_names_write {spool : Spool} {file : SpoolFile} {name : String} :
    name ∈ (spool.write file).names ↔ name = file.name ∨ name ∈ spool.names := by
  simp only [names, write, List.map_append, List.mem_append, List.mem_map, List.mem_filter,
    decide_eq_true_eq, List.map_cons, List.map_nil, List.mem_singleton]
  constructor
  · rintro (⟨other, ⟨hmem, -⟩, rfl⟩ | rfl)
    · exact Or.inr ⟨other, hmem, rfl⟩
    · exact Or.inl rfl
  · rintro (rfl | ⟨other, hmem, rfl⟩)
    · exact Or.inr rfl
    · by_cases h : other.name = file.name
      · exact Or.inr h
      · exact Or.inl ⟨other, ⟨hmem, h⟩, rfl⟩

/-- The events of the files that a write does not replace, then those it writes. -/
theorem Spool.spooled_write (spool : Spool) (file : SpoolFile) : (spool.write file).spooled =
    ((spool.files.filter fun other ↦ other.name ≠ file.name).flatMap fun other ↦
      other.events.map fun event ↦ (other.header, event)) ++
      file.events.map fun event ↦ (file.header, event) := by
  rw [spooled, write, List.flatMap_append, List.flatMap_singleton]

theorem Spool.spooled_write_of_not_mem {spool : Spool} {file : SpoolFile}
    (h : file.name ∉ spool.names) : (spool.write file).spooled =
      spool.spooled ++ file.events.map fun event ↦ (file.header, event) := by
  have hfilter : spool.files.filter (fun other ↦ other.name ≠ file.name) = spool.files := by
    rw [List.filter_eq_self]
    intro other hother
    exact decide_eq_true fun heq ↦ h (heq ▸ List.mem_map_of_mem hother)
  rw [spooled_write, hfilter, ← spooled]

/-- Where the files are taken, the spool gains every chunk under the header. -/
theorem spooled_writeChunks (header : Header) {chunks : List (List ActionEvent)} {spool : Spool}
    (h : Takes answers fext spool.names spool.attempts chunks.length) :
    (writeChunks answers fext header chunks spool).2.spooled =
        spool.spooled ++ chunks.flatten.map (fun event ↦ (header, event)) ∧
      (writeChunks answers fext header chunks spool).2.attempts =
        spool.attempts + chunks.length ∧
      ∀ name ∈ (writeChunks answers fext header chunks spool).2.names, name ∈ spool.names ∨
        ∃ k < spool.attempts + chunks.length, name = spoolName answers fext k := by
  induction chunks generalizing spool with
  | nil => exact ⟨by simp [writeChunks], rfl, fun name hname ↦ Or.inl hname⟩
  | cons chunk chunks ih =>
    rw [List.length_cons, takes_succ_iff] at h
    obtain ⟨hok, hnew, hrest⟩ := h
    rw [writeChunks, if_pos hok]
    -- the spool has gained one name, the one that was used
    have hrest : Takes answers fext
        (spool.write ⟨spoolName answers fext spool.attempts, header, chunk⟩).names
        (spool.attempts + 1) chunks.length := by
      refine hrest.congr fun name hname ↦ ?_
      rcases Spool.mem_names_write.mp hname with rfl | hname
      · exact List.mem_cons_self
      · exact List.mem_cons_of_mem _ hname
    obtain ⟨hspooled, hattempts, hnames⟩ := ih hrest
    refine ⟨?_, ?_, fun name hname ↦ ?_⟩
    · rw [hspooled, Spool.spooled_write_of_not_mem hnew, List.flatten_cons, List.map_append,
        List.append_assoc]
    · rw [hattempts, Spool.attempts_write, List.length_cons]
      omega
    · rw [List.length_cons]
      rcases hnames name hname with hname | ⟨k, hk, rfl⟩
      · rcases Spool.mem_names_write.mp hname with rfl | hname
        · exact Or.inr ⟨spool.attempts, by omega, rfl⟩
        · exact Or.inl hname
      · rw [Spool.attempts_write] at hk
        exact Or.inr ⟨k, by omega, rfl⟩

end Spool

/-! ## Chunks -/

section Chunks

variable {α : Type} {size : ℕ}

private theorem flatten_chunks_take (events : List α) (n : ℕ) :
    ((List.range n).map fun x ↦ (events.drop (x * size)).take size).flatten =
      events.take (n * size) := by
  induction n with
  | zero => simp
  | succ n ih =>
    rw [List.range_succ, List.map_append, List.flatten_append, ih, Nat.succ_mul, List.take_add]
    simp

theorem flatten_chunksOf (hsize : 0 < size) (events : List α) :
    (chunksOf size events).flatten = events := by
  rw [chunksOf, flatten_chunks_take]
  refine List.take_of_length_le ?_
  -- the number of chunks is rounded up, so the last one reaches the end
  have hmod := Nat.div_add_mod (events.length + size - 1) size
  have hlt := Nat.mod_lt (events.length + size - 1) hsize
  rw [Nat.mul_comm] at hmod
  omega

theorem ne_nil_of_mem_chunksOf (hsize : 0 < size) {events : List α} {chunk : List α}
    (h : chunk ∈ chunksOf size events) : chunk ≠ [] := by
  obtain ⟨x, hx, rfl⟩ := List.mem_map.mp h
  rw [List.mem_range, Nat.lt_div_iff_mul_lt hsize] at hx
  have hdrop : (events.drop (x * size)).length ≠ 0 := by
    rw [List.length_drop]
    omega
  intro hnil
  rcases List.take_eq_nil_iff.mp hnil with hzero | hnil
  · omega
  · rw [hnil] at hdrop
    exact hdrop rfl

end Chunks

/-! ## What the steps do to the buffer and the spool -/

/-- The buffer and the spool are left alone. -/
structure ActionState.Kept (s t : ActionState) : Prop where
  events : t.events = s.events
  spool : t.spool = s.spool

section Steps

variable {services : ActionServices} {settings : ActionSettings} {s t u : ActionState} {α : Type}

theorem ActionState.Kept.refl (s : ActionState) : s.Kept s := ⟨rfl, rfl⟩

theorem ActionState.Kept.trans (h : s.Kept t) (h' : t.Kept u) : s.Kept u :=
  ⟨h'.events.trans h.events, h'.spool.trans h.spool⟩

/-- The computation leaves the buffer and the spool alone, however it ends. -/
def Keeps (x : Action α) : Prop := ∀ s, Ends x s fun _ t ↦ s.Kept t

theorem ActionState.kept_iff : s.Kept t ↔ (t.events, t.spool) = (s.events, s.spool) := by
  rw [Prod.mk.injEq]
  exact ⟨fun h ↦ ⟨h.events, h.spool⟩, fun h ↦ ⟨h.1, h.2⟩⟩

theorem keeps_iff {x : Action α} :
    Keeps x ↔ Preserves (fun s : ActionState ↦ (s.events, s.spool)) x :=
  forall_congr' fun _ ↦ ⟨fun h ↦ h.mono fun _ _ ↦ ActionState.kept_iff.mp,
    fun h ↦ h.mono fun _ _ ↦ ActionState.kept_iff.mpr⟩

theorem Keeps.ends_bind {β : Type} {x : Action α} {f : α → Action β}
    {Q : Except PyError β → ActionState → Prop} (hx : Keeps x)
    (herror : ∀ e t, s.Kept t → Q (.error e) t) (hok : ∀ a t, s.Kept t → Ends (f a) t Q) :
    Ends (x >>= f) s Q :=
  (keeps_iff.mp hx).ends_bind (fun e t hst ↦ herror e t (ActionState.kept_iff.mpr hst))
    fun a t hst ↦ hok a t (ActionState.kept_iff.mpr hst)

theorem Keeps.bind {β : Type} {x : Action α} {f : α → Action β} (hx : Keeps x)
    (hf : ∀ a, Keeps (f a)) : Keeps (x >>= f) :=
  keeps_iff.mpr ((keeps_iff.mp hx).bind fun a ↦ keeps_iff.mp (hf a))

theorem keeps_pure (a : α) : Keeps (pure a : Action α) := fun s ↦ .refl s

theorem keeps_throw (e : PyError) : Keeps (throw e : Action α) := fun s ↦ .refl s

theorem keeps_liftExcept (x : Except PyError α) : Keeps (liftExcept x : Action α) := fun s ↦
  (ends_liftExcept x).mpr (.refl s)

theorem keeps_modify {f : ActionState → ActionState} (hf : ∀ s : ActionState, s.Kept (f s)) :
    Keeps (modify f : Action Unit) := fun s ↦ hf s

theorem keeps_ask (answer : ℕ → Except PyError α) : Keeps (ask answer : Action α) := by
  intro s
  unfold ask
  simp only [ends_bind, ends_get, ends_modify, ends_liftExcept]
  exact ⟨rfl, rfl⟩

theorem Keeps.exceptWith {x : Action α} {h : PyError → Action α} (hx : Keeps x)
    (hh : ∀ e, Keeps (h e)) : Keeps (exceptWith x h) :=
  keeps_iff.mpr ((keeps_iff.mp hx).exceptWith fun e ↦ keeps_iff.mp (hh e))

theorem keeps_updateIds (result : Row) : Keeps (updateIds settings result) := by
  refine Keeps.bind (keeps_modify fun _ ↦ ⟨rfl, rfl⟩) fun _ ↦ ?_
  split
  · exact keeps_modify fun _ ↦ ⟨rfl, rfl⟩
  · exact keeps_throw _

/-- The row that is handled is the one read, with an identifier. -/
theorem ends_preHandle {num : ℕ} {row : Row} : Ends (preHandle settings num row) s fun r t ↦
    s.Kept t ∧ ∀ event, r = .ok event → event = row.setDefault "rid" (toString num) := by
  refine (keeps_updateIds _).ends_bind (fun _ _ hst ↦ ⟨hst, fun _ h ↦ nomatch h⟩) fun _ t hst ↦ ?_
  exact ⟨hst, fun event h ↦ (Except.ok.inj h).symm⟩

theorem keeps_preHandle (num : ℕ) (row : Row) : Keeps (preHandle settings num row) := fun _ ↦
  ends_preHandle.mono fun _ _ h ↦ h.1

theorem keeps_cachedAccessToken (request : TokenRequest) (tenantId : String) :
    Keeps (cachedAccessToken services request tenantId) := by
  intro s
  refine ends_bind.mpr (ends_get.mpr ?_)
  dsimp only
  split
  · refine Keeps.bind (keeps_modify ?_) (fun _ ↦ keeps_pure _) s
    exact fun _ ↦ ⟨rfl, rfl⟩
  · refine Keeps.bind (keeps_liftExcept _) (fun _ ↦ Keeps.bind ?_ fun token ↦ ?_) s
    · exact (keeps_ask _).exceptWith fun e ↦ keeps_throw _
    · exact Keeps.bind (keeps_modify fun _ ↦ ⟨rfl, rfl⟩) fun _ ↦ keeps_pure _

theorem keeps_callApi (method url : String) (accessToken body : Json) :
    Keeps (callApi services method url accessToken body) :=
  Keeps.bind (keeps_ask _) fun _ ↦ Keeps.bind (keeps_ask _) fun _ ↦
    Keeps.bind (keeps_modify fun _ ↦ ⟨rfl, rfl⟩) fun _ ↦ keeps_pure _

/-- The entries are numbered on, from `n`. -/
def NumberedFrom (n : ℕ) (events : List ActionEvent) : Prop :=
  events.map ActionEvent.number = List.range' n events.length

theorem NumberedFrom.append {n : ℕ} {events events' : List ActionEvent}
    (h : NumberedFrom n events) (h' : NumberedFrom (n + events.length) events') :
    NumberedFrom n (events ++ events') := by
  rw [NumberedFrom, List.map_append, h, h', List.length_append, ← List.range'_append_1]

/-- The buffer gains the entries, numbered on, and nothing else is changed that is looked at. -/
structure ActionState.Gains (s : ActionState) (entries : List ActionEvent) (t : ActionState) :
    Prop where
  events : t.events = s.events ++ entries
  numbers : NumberedFrom s.events.length entries
  spool : t.spool = s.spool
  calls : t.calls = s.calls

theorem ActionState.Gains.append {entries entries' : List ActionEvent} (h : s.Gains entries t)
    (h' : t.Gains entries' u) : s.Gains (entries ++ entries') u where
  events := by rw [h'.events, h.events, List.append_assoc]
  numbers := by
    have hnumbers := h'.numbers
    rw [h.events, List.length_append] at hnumbers
    exact h.numbers.append hnumbers
  spool := h'.spool.trans h.spool
  calls := h'.calls.trans h.calls

/-- `addevents` appends what it returns, an entry for each value. -/
theorem ends_addevents {sourcetype : String} {raws : List Json} :
    Ends (addevents settings sourcetype raws) s fun r t ↦ ∃ events, r = .ok events ∧
      events.map ActionEvent.raw = raws ∧ s.Gains events t := by
  induction raws generalizing s with
  | nil => exact ⟨[], rfl, rfl, (List.append_nil _).symm, rfl, rfl, rfl⟩
  | cons raw raws ih =>
    rw [addevents, ends_bind, addevent]
    simp only [ends_bind, ends_get, ends_modify, ends_pure]
    set entry : ActionEvent := ⟨idline settings s sourcetype, raw, s.events.length⟩
    have hadded : s.Gains [entry] { s with events := s.events ++ [entry] } :=
      ⟨rfl, rfl, rfl, rfl⟩
    refine ih.mono ?_
    rintro r t ⟨events, rfl, hraws, hgains⟩
    refine ⟨entry :: events, rfl, ?_, hadded.append hgains⟩
    rw [List.map_cons, hraws]

/-- `writeevents` leaves the buffer as it is and writes all of it. -/
theorem ends_writeevents {index host source : Option String} {fext : String} :
    Ends (writeevents services index host source fext) s fun r t ↦ (∃ written, r = .ok written) ∧
      t.events = s.events ∧ t.spool = (writeChunks services.spool (sanitizeExt fext)
        (Header.of index host source) (chunksOf defaultChunk s.events) s.spool).2 := by
  rw [writeevents, ends_get_bind]
  split_ifs with hempty
  · refine ⟨⟨false, rfl⟩, rfl, ?_⟩
    rw [List.isEmpty_iff.mp hempty]
    rfl
  · obtain ⟨written, spool⟩ := writeChunks services.spool (sanitizeExt fext)
      (Header.of index host source) (chunksOf defaultChunk s.events) s.spool
    exact ⟨⟨written, rfl⟩, rfl, rfl⟩

end Steps

/-! ## What the steps record -/

section Calls

variable {services : ActionServices} {settings : ActionSettings} {s t : ActionState} {α : Type}

theorem preserves_calls_ask (answer : ℕ → Except PyError α) :
    Preserves ActionState.calls (ask answer) :=
  preserves_get.bind fun _ ↦ Preserves.bind (preserves_modify fun _ ↦ rfl) fun _ ↦
    preserves_liftExcept _

theorem preserves_calls_updateIds (row : Row) :
    Preserves ActionState.calls (updateIds settings row) := by
  refine Preserves.bind (preserves_modify fun _ ↦ rfl) fun _ ↦ ?_
  split
  · exact preserves_modify fun _ ↦ rfl
  · exact preserves_throw _

theorem preserves_calls_preHandle (num : ℕ) (row : Row) :
    Preserves ActionState.calls (preHandle settings num row) :=
  (preserves_calls_updateIds _).bind fun _ ↦ preserves_pure _

theorem preserves_calls_cachedAccessToken (request : TokenRequest) (tenantId : String) :
    Preserves ActionState.calls (cachedAccessToken services request tenantId) := by
  refine preserves_get.bind fun s ↦ ?_
  split
  · exact Preserves.bind (preserves_modify fun _ ↦ rfl) fun _ ↦ preserves_pure _
  · refine (preserves_liftExcept _).bind fun _ ↦ Preserves.bind ?_ fun token ↦ ?_
    · exact (preserves_calls_ask _).exceptWith fun e ↦ preserves_throw _
    · exact Preserves.bind (preserves_modify fun _ ↦ rfl) fun _ ↦ preserves_pure _

theorem preserves_calls_writeevents (index host source : Option String) (fext : String) :
    Preserves ActionState.calls (writeevents services index host source fext) := by
  intro s
  rw [writeevents, ends_get_bind]
  split
  · exact rfl
  · obtain ⟨written, spool⟩ := writeChunks services.spool (sanitizeExt fext)
      (Header.of index host source) (chunksOf defaultChunk s.events) s.spool
    exact rfl

theorem exists_call_of_callApi {method url : String} {accessToken body response : Json}
    (h : callApi services method url accessToken body s = .ok response t) :
    ∃ call : ApiRequest × Json, t.calls = s.calls ++ [call] ∧ call.1.method = method ∧
      call.1.url = url ∧ call.1.body = body ∧ call.2 = response := by
  obtain ⟨_, s₁, hproxy, h⟩ := bind_eq_ok_iff_exists.mp h
  obtain ⟨answer, s₂, hrequest, h⟩ := bind_eq_ok_iff_exists.mp h
  obtain ⟨_, s₃, hmodify, hreturn⟩ := bind_eq_ok_iff_exists.mp h
  obtain ⟨-, rfl⟩ := EStateM.Result.ok.inj hmodify
  obtain ⟨rfl, rfl⟩ := EStateM.Result.ok.inj hreturn
  have hcalls : s₂.calls = s.calls := by
    rw [(preserves_calls_ask _).of_ok hrequest, (preserves_calls_ask _).of_ok hproxy]
  exact ⟨_, congrArg (· ++ [_]) hcalls, rfl, rfl, rfl, rfl⟩

theorem eq_setDefault_of_preHandle {num : ℕ} {row event : Row}
    (h : preHandle settings num row s = .ok event t) :
    event = row.setDefault "rid" (toString num) := (ends_preHandle.of_ok h).2 event rfl

end Calls

end MsSecurity
