import MsSecurity.Python.LruCache
import MsSecurity.Settings.Proxy
import MsSecurity.Transition.Run
import Mathlib.Logic.Function.Basic

/-!
# The proxy settings in a process that stays

The two functions that read the proxy settings keep the values of the last eight pairs of a logger
and a session key. The handlers of the configuration pages are run by a process that stays, while
the settings are edited. So a call returns what the settings of now give, or else what they gave
when the function last ran for the pair, and these differ exactly if a value is kept and the edits
since then changed something the function uses (`returned_eq_iff`): after the proxy is turned on,
the validation of an account still goes around it.
-/

namespace MsSecurity

/-- The functions with a cache. -/
inductive ProxyFunction
  | getProxy
  | getProxyDictForEventhub
  deriving DecidableEq

namespace ProxyFunction

/-- What a function returns. -/
abbrev Value : ProxyFunction → Type
  | getProxy => Option Proxies
  | getProxyDictForEventhub => Option EventHubProxy

/-- What a function makes of the settings. -/
def valueOf : (f : ProxyFunction) → ProxyStanza → Except PyError f.Value
  | getProxy, proxy => .ok (proxiesOf proxy)
  | getProxyDictForEventhub, proxy => eventHubProxyOf proxy

end ProxyFunction

/-- The stored settings, and a process with the caches of the functions. -/
structure ProxyProcess (Logger : Type) where
  stored : ProxyStanza
  caches : (f : ProxyFunction) → Memo (Logger × String) ProxyStanza f.Value

/-- What happens: the settings are edited, or a function is called, and cannot read them if
`readFails`. -/
inductive ProxyAction (Logger : Type)
  | edit (proxy : ProxyStanza)
  | call (f : ProxyFunction) (logger : Logger) (sessionKey : String) (readFails : Bool)

namespace ProxyProcess

variable {Logger : Type} [DecidableEq Logger]

/-- A process that has just been started. -/
def start (stored : ProxyStanza) : ProxyProcess Logger := ⟨stored, fun _ ↦ Memo.empty⟩

/-- `cfm.get_conf(SETTINGS_CONF_NAME).get("proxy")`; where it raises the function exits. -/
def getConf (s : ProxyProcess Logger) (readFails : Bool) : Except PyError ProxyStanza :=
  if readFails then .error (.systemExit 1) else .ok s.stored

/-- `@lru_cache(maxsize=8)`. -/
def call (s : ProxyProcess Logger) (f : ProxyFunction) (logger : Logger) (sessionKey : String)
    (readFails : Bool) : Except PyError f.Value × Memo (Logger × String) ProxyStanza f.Value :=
  (s.caches f).call 8 f.valueOf (s.getConf readFails) (logger, sessionKey)

def step (s : ProxyProcess Logger) : ProxyAction Logger → Option (ProxyProcess Logger)
  | .edit proxy => some { s with stored := proxy }
  | .call f logger sessionKey readFails =>
    some { s with
      caches := Function.update s.caches f (s.call f logger sessionKey readFails).2 }

/-! ## Values of now and of then -/

/-- Every entry is a value of the settings its function read when it last ran for the key. -/
def Valid (s : ProxyProcess Logger) : Prop := ∀ f, (s.caches f).Valid 8 f.valueOf

theorem valid_start (stored : ProxyStanza) : (start stored : ProxyProcess Logger).Valid :=
  fun _ ↦ Memo.valid_empty

theorem Valid.step {s t : ProxyProcess Logger} {action : ProxyAction Logger} (h : s.Valid)
    (hstep : s.step action = some t) : t.Valid := by
  cases action with
  | edit proxy =>
    obtain rfl := Option.some.inj hstep
    exact h
  | call f logger sessionKey readFails =>
    obtain rfl := Option.some.inj hstep
    intro g
    dsimp only
    rcases eq_or_ne g f with rfl | hne
    · rw [Function.update_self]
      exact (h g).call _ _
    · rw [Function.update_of_ne hne]
      exact h g

theorem valid_of_run {stored : ProxyStanza} {actions : List (ProxyAction Logger)}
    {s : ProxyProcess Logger} (h : Run step (fun _ _ ↦ True) (start stored) actions s) : s.Valid :=
  h.invariant (fun hvalid _ hstep ↦ hvalid.step hstep) (valid_start stored)

/-- The calls of a function that return while the actions are taken, the latest first, each with the
settings it read if the function ran. -/
def callsOf (f : ProxyFunction) : ProxyStanza → List (ProxyAction Logger) →
    List ((Logger × String) × Option ProxyStanza) → List ((Logger × String) × Option ProxyStanza)
  | _, [], past => past
  | _, .edit proxy :: actions, past => callsOf f proxy actions past
  | stored, .call g logger sessionKey readFails :: actions, past =>
    callsOf f stored actions <|
      if g = f then
        Memo.recorded 8 f.valueOf (if readFails then .error (.systemExit 1) else .ok stored)
          (logger, sessionKey) past
      else past

/-- **The calls.** After a run, a cache lists the calls of the run that returned. -/
theorem past_eq_callsOf {s t : ProxyProcess Logger} {actions : List (ProxyAction Logger)}
    (h : Run step (fun _ _ ↦ True) s actions t) (hvalid : s.Valid) (f : ProxyFunction) :
    (t.caches f).past = callsOf f s.stored actions (s.caches f).past := by
  induction h with
  | nil s => rfl
  | @cons s s' t action actions _ hstep _ ih =>
    rw [ih (hvalid.step hstep)]
    cases action with
    | edit proxy =>
      obtain rfl := Option.some.inj hstep
      rfl
    | call g logger sessionKey readFails =>
      obtain rfl := Option.some.inj hstep
      rw [callsOf]
      rcases eq_or_ne g f with rfl | hne
      · rw [if_pos rfl]
        dsimp only
        rw [Function.update_self, call, (hvalid g).past_call, getConf]
      · rw [if_neg hne]
        dsimp only
        rw [Function.update_of_ne hne.symm]

end ProxyProcess

/-! ## Edits that change nothing -/

/-- The functions have nothing to read. -/
def ProxyStanza.Unused (proxy : ProxyStanza) : Prop := proxy.isEmpty ∨ proxy.isOff

instance (proxy : ProxyStanza) : Decidable proxy.Unused :=
  inferInstanceAs (Decidable (proxy.isEmpty ∨ proxy.isOff))

/-- What a function uses of the settings is the same in both. -/
def ProxyFunction.Alike : ProxyFunction → ProxyStanza → ProxyStanza → Prop
  | getProxy, proxy, proxy' =>
    (proxy.Unused ∧ proxy'.Unused) ∨ (¬proxy.Unused ∧ ¬proxy'.Unused ∧ proxy.url = proxy'.url)
  | getProxyDictForEventhub, proxy, proxy' =>
    (proxy.Unused ∧ proxy'.Unused) ∨ (¬proxy.Unused ∧ ¬proxy'.Unused ∧
      Dict.get proxy "proxy_url" = Dict.get proxy' "proxy_url" ∧
      proxy.intPort = proxy'.intPort ∧ proxy.credentials = proxy'.credentials)

theorem proxiesOf_eq_ite (proxy : ProxyStanza) : proxiesOf proxy =
    if proxy.Unused then none else some [("http", proxy.url), ("https", proxy.url)] := rfl

theorem eventHubProxyOf_eq_ite (proxy : ProxyStanza) : eventHubProxyOf proxy =
    if proxy.Unused then .ok none
    else proxy.intPort.map fun proxyPort ↦
      some ⟨Dict.get proxy "proxy_url", proxyPort, proxy.credentials.map Prod.fst,
        proxy.credentials.map Prod.snd⟩ := by
  rw [eventHubProxyOf]
  cases proxy.intPort <;> rfl

theorem proxiesOf_eq_iff_alike {proxy proxy' : ProxyStanza} :
    proxiesOf proxy' = proxiesOf proxy ↔ ProxyFunction.getProxy.Alike proxy proxy' := by
  rw [ProxyFunction.Alike, proxiesOf_eq_ite, proxiesOf_eq_ite]
  by_cases h : proxy.Unused <;> by_cases h' : proxy'.Unused <;>
    simp [h, h', eq_comm]

theorem credentials_eq_iff {credentials credentials' : Option (String × String)} :
    credentials.map Prod.fst = credentials'.map Prod.fst ∧
      credentials.map Prod.snd = credentials'.map Prod.snd ↔ credentials = credentials' := by
  cases credentials <;> cases credentials' <;> simp [Prod.ext_iff]

/-- Settings that can be read give the same if and only if what is used of them is the same. -/
theorem eventHubProxyOf_eq_ok_iff_alike {proxy proxy' : ProxyStanza} {value : Option EventHubProxy}
    (h : eventHubProxyOf proxy = .ok value) : eventHubProxyOf proxy' = .ok value ↔
      ProxyFunction.getProxyDictForEventhub.Alike proxy proxy' := by
  rw [ProxyFunction.Alike, ← h, eventHubProxyOf_eq_ite, eventHubProxyOf_eq_ite]
  rw [eventHubProxyOf_eq_ite] at h
  by_cases hu : proxy.Unused <;> by_cases hu' : proxy'.Unused
  · simp [hu, hu']
  · cases hport' : proxy'.intPort <;> simp [hu, hu', Except.map]
  · cases hport : proxy.intPort <;> simp [hu, hu', hport, Except.map] at h ⊢
  · cases hport : proxy.intPort with
    | error e => simp [hu, hport, Except.map] at h
    | ok proxyPort =>
      rw [← credentials_eq_iff]
      cases hport' : proxy'.intPort with
      | error e => simp [hu, hu', Except.map]
      | ok proxyPort' => simp [hu, hu', Except.map, eq_comm]

theorem ProxyFunction.valueOf_eq_ok_iff_alike {f : ProxyFunction} {proxy proxy' : ProxyStanza}
    {value : f.Value} (h : f.valueOf proxy = .ok value) :
    f.valueOf proxy' = .ok value ↔ f.Alike proxy proxy' := by
  cases f with
  | getProxy =>
    rw [← proxiesOf_eq_iff_alike, ← h, valueOf, valueOf, Except.ok.injEq]
  | getProxyDictForEventhub => exact eventHubProxyOf_eq_ok_iff_alike h

namespace ProxyProcess

variable {Logger : Type} [DecidableEq Logger]

/-- **Values of the current settings.** After every run, a call that returns gives what the stored
settings give if and only if the pair of its logger and its session key is not among the eight that
the function was called with last, or what the function uses of the settings is still what it was
when it last ran for the pair. -/
theorem returned_eq_iff {stored : ProxyStanza} {actions : List (ProxyAction Logger)}
    {s : ProxyProcess Logger} (h : Run step (fun _ _ ↦ True) (start stored) actions s)
    {f : ProxyFunction} {logger : Logger} {sessionKey : String} {readFails : Bool} {value : f.Value}
    (hcall : (s.call f logger sessionKey readFails).1 = .ok value) :
    f.valueOf s.stored = .ok value ↔
      (logger, sessionKey) ∉ (Memo.recentKeys (s.caches f).past).take 8 ∨
        ∃ proxy, Memo.lastRead (logger, sessionKey) (s.caches f).past = some proxy ∧
          f.Alike proxy s.stored := by
  have hvalue := (valid_of_run h f).ok_of_call hcall
  split_ifs at hvalue with hmem
  · obtain ⟨proxy, hread, hproxy⟩ := hvalue
    rw [ProxyFunction.valueOf_eq_ok_iff_alike hproxy, or_iff_right (not_not.mpr hmem), hread]
    constructor
    · exact fun halike ↦ ⟨proxy, rfl, halike⟩
    · rintro ⟨_, ⟨⟩, halike⟩
      exact halike
  · refine iff_of_true ?_ (Or.inl hmem)
    obtain ⟨proxy, hread, hproxy⟩ := hvalue
    rw [getConf] at hread
    split_ifs at hread
    obtain rfl := Except.ok.inj hread
    exact hproxy

/-! ## A proxy that is turned on -/

def proxyOff : ProxyStanza :=
  [("proxy_enabled", "0"), ("proxy_url", "proxy.example.com"), ("proxy_port", "8080")]

def proxyOn : ProxyStanza :=
  [("proxy_enabled", "1"), ("proxy_url", "proxy.example.com"), ("proxy_port", "8080")]

/-- An account is validated, and then the proxy is turned on. -/
def turnedOn : ProxyProcess ℕ :=
  ⟨proxyOn, Function.update (fun _ ↦ Memo.empty) .getProxy
    ⟨[((0, "session"), none)], [((0, "session"), some proxyOff)]⟩⟩

theorem run_turnedOn : Run step (fun _ _ ↦ True) (start proxyOff)
    [.call .getProxy 0 "session" false, .edit proxyOn] turnedOn :=
  .cons trivial rfl (.cons trivial rfl (.nil _))

/-- In a new session the function runs again. -/
theorem returned_turnedOn :
    (turnedOn.call .getProxy 0 "new session" false).1 = .ok (some
      [("http", "http://proxy.example.com:8080"), ("https", "http://proxy.example.com:8080")]) ∧
    ProxyFunction.getProxy.valueOf turnedOn.stored = .ok (some
      [("http", "http://proxy.example.com:8080"), ("https", "http://proxy.example.com:8080")]) := by
  have hcall : (turnedOn.call .getProxy 0 "new session" false).1 = .ok (some
      [("http", "http://proxy.example.com:8080"), ("https", "http://proxy.example.com:8080")]) :=
    rfl
  exact ⟨hcall, (returned_eq_iff run_turnedOn hcall).mpr (Or.inl (by decide))⟩

/-- In the same session there is still no proxy. -/
theorem not_returned_current : ¬∀ (stored : ProxyStanza) (actions : List (ProxyAction ℕ))
    (s : ProxyProcess ℕ), Run step (fun _ _ ↦ True) (start stored) actions s →
    ∀ (f : ProxyFunction) (logger : ℕ) (sessionKey : String) (readFails : Bool) (value : f.Value),
      (s.call f logger sessionKey readFails).1 = .ok value → f.valueOf s.stored = .ok value := by
  intro hall
  have hvalue := hall _ _ _ run_turnedOn .getProxy 0 "session" false none rfl
  cases hvalue

end ProxyProcess

end MsSecurity
