import MsSecurity.Collector.Odata

/-!
# The headers along a chain of pages

`get_atp_alerts_odata` follows the links of the server by calling itself, and every call makes its
headers from its own arguments. The token is passed on, the user agent is not: from the second page
on, `requests` sends the user agent it has by default. A link is followed only if it is an https
URL.

## Main results

* `Odata.uniformSince_iff`: all requests of a call are alike exactly when the user agent is the
  default one already, or when there is no second request.
-/

namespace MsSecurity

namespace Odata

/-! ## What is sent -/

/-- `default_user_agent`. -/
def defaultUserAgent : String := "python-requests/2.31.0"

/-- The `User-Agent` header of a request. -/
def PageRequest.sentUserAgent (request : PageRequest) : String :=
  request.userAgent.getD defaultUserAgent

/-- The requests go to https URLs, with the headers of the first. -/
def Uniform (made : List PageRequest) : Prop :=
  ∀ first ∈ made.head?, ∀ request ∈ made, isHttps request.url = true ∧
    request.accessToken = first.accessToken ∧ request.sentUserAgent = first.sentUserAgent

/-- The requests made between two states are uniform. -/
def UniformSince (s t : List PageRequest) : Prop := ∃ made, t = s ++ made ∧ Uniform made

theorem uniformSince_self (s : List PageRequest) : UniformSince s s :=
  ⟨[], (List.append_nil s).symm, fun _ h ↦ nomatch h⟩

theorem uniformSince_one {request : PageRequest} (h : isHttps request.url = true)
    (s : List PageRequest) : UniformSince s (s ++ [request]) := by
  refine ⟨[request], rfl, fun first hfirst r hr ↦ ?_⟩
  obtain rfl := List.mem_singleton.mp hr
  obtain rfl := Option.some.inj hfirst
  exact ⟨h, rfl, rfl⟩

theorem not_uniformSince {s t : List PageRequest} {first second : PageRequest}
    (hmade : s ++ [first] ++ [second] <+: t)
    (hne : second.sentUserAgent ≠ first.sentUserAgent) : ¬UniformSince s t := by
  rintro ⟨made, rfl, huniform⟩
  rw [List.append_assoc, List.prefix_append_right_inj] at hmade
  obtain ⟨rest, rfl⟩ := hmade
  exact hne (huniform first rfl second (by simp)).2.2

/-! ## A second request -/

/-- The first request is made, and its answer is a page with a link that is followed, within the
recursion limit. -/
def Continues (services : OdataServices) (accessToken : Json) (depth : ℕ) (url : String)
    (userAgent : Option String) (s : List PageRequest) : Prop :=
  2 ≤ depth ∧ ∃ proxies alerts nextAtpUrl, services.proxy = .ok proxies ∧
    followUp (services.get s ⟨url, accessToken, nonemptyStr? userAgent, proxies⟩) =
      .ok (alerts, some nextAtpUrl)

variable {services : OdataServices} {accessToken : Json} {depth : ℕ} {url : String}
  {userAgent : Option String} {s : List PageRequest}

/-- A call that goes on makes a second request, for which no user agent is set. -/
theorem ends_of_continues (h : Continues services accessToken depth url userAgent s) :
    ∃ nextAtpUrl proxies, Ends (getAtpAlertsOdata services accessToken depth url userAgent) s
      fun _ t ↦ s ++ [⟨url, accessToken, nonemptyStr? userAgent, proxies⟩] ++
        [⟨nextAtpUrl, accessToken, none, proxies⟩] <+: t := by
  obtain ⟨hdepth, proxies, alerts, nextAtpUrl, hproxy, hanswer⟩ := h
  obtain ⟨depth, rfl⟩ := Nat.exists_eq_add_of_le' hdepth
  refine ⟨nextAtpUrl, proxies, ?_⟩
  rw [ends_getAtpAlertsOdata_succ hproxy, hanswer]
  -- the nested call is within the limit and has the same proxies, so it gets to its request
  refine ends_getAtpAlertsOdata_of_nested
    (P := fun t ↦ s ++ [_] ++ [⟨nextAtpUrl, accessToken, none, proxies⟩] <+: t)
    (fun u _ _ _ hu ↦ hu.trans (List.prefix_append u _)) (depth + 1) nextAtpUrl none _
    (fun hno ↦ ?_) fun proxies' hproxies' ↦ ?_
  · rw [hproxy] at hno
    obtain hno | hno := hno
    · exact absurd hno (Nat.succ_ne_zero depth)
    · cases hno
  · obtain rfl := Except.ok.inj (hproxies'.symm.trans hproxy)
    exact List.prefix_rfl

theorem uniformSince_of_not_continues (hurl : isHttps url = true)
    (h : ¬Continues services accessToken depth url userAgent s) :
    Ends (getAtpAlertsOdata services accessToken depth url userAgent) s
      fun _ t ↦ UniformSince s t := by
  cases depth with
  | zero => exact uniformSince_self s
  | succ depth =>
    cases hproxy : services.proxy with
    | error e =>
      rw [ends_getAtpAlertsOdata_of_proxy_error hproxy]
      exact uniformSince_self s
    | ok proxies =>
      have hone : UniformSince s (s ++ [⟨url, accessToken, nonemptyStr? userAgent, proxies⟩]) :=
        uniformSince_one hurl s
      rw [ends_getAtpAlertsOdata_succ hproxy]
      cases hanswer : followUp (services.get s _) with
      | error e => exact hone
      | ok page =>
        obtain ⟨alerts, _ | nextAtpUrl⟩ := page
        · exact hone
        · cases depth with
          | zero => exact hone
          | succ depth =>
            exact absurd ⟨Nat.le_add_left 2 depth, proxies, alerts, nextAtpUrl, hproxy, hanswer⟩ h

/-- Where the user agent is the default one, the later requests are like the first. -/
theorem uniformSince_of_default (hurl : isHttps url = true)
    (h : (nonemptyStr? userAgent).getD defaultUserAgent = defaultUserAgent) :
    Ends (getAtpAlertsOdata services accessToken depth url userAgent) s
      fun _ t ↦ UniformSince s t := by
  let Alike (request : PageRequest) : Prop := isHttps request.url = true ∧
    request.accessToken = accessToken ∧ request.sentUserAgent = defaultUserAgent
  have hcall : Ends (getAtpAlertsOdata services accessToken depth url userAgent) s
      fun _ t ↦ ∃ made, t = s ++ made ∧ ∀ request ∈ made, Alike request := by
    refine ends_getAtpAlertsOdata_of_nested
      (P := fun t ↦ ∃ made, t = s ++ made ∧ ∀ request ∈ made, Alike request)
      ?_ depth url userAgent s (fun _ ↦ ⟨[], by simp⟩) fun proxies _ ↦ ⟨[_], rfl, ?_⟩
    · rintro _ nextAtpUrl proxies hhttps ⟨made, rfl, halike⟩
      refine ⟨made ++ [_], List.append_assoc _ _ _, List.forall_mem_append.mpr ⟨halike, ?_⟩⟩
      exact List.forall_mem_singleton.mpr ⟨hhttps, rfl, rfl⟩
    · exact List.forall_mem_singleton.mpr ⟨hurl, rfl, h⟩
  refine hcall.mono fun _ t ⟨made, ht, halike⟩ ↦ ⟨made, ht, fun first hfirst request hrequest ↦ ?_⟩
  obtain ⟨-, htoken, huserAgent⟩ := halike first (List.mem_of_mem_head? hfirst)
  obtain ⟨hhttps, htoken', huserAgent'⟩ := halike request hrequest
  exact ⟨hhttps, htoken'.trans htoken.symm, huserAgent'.trans huserAgent.symm⟩

/-- **The requests of a call.** They go to https URLs with the headers of the first exactly when the
user agent is the default one or there is no second request. -/
theorem uniformSince_iff (services : OdataServices) (accessToken : Json) (depth : ℕ)
    (userAgent : Option String) (s : List PageRequest) {url : String} (hurl : isHttps url = true) :
    Ends (getAtpAlertsOdata services accessToken depth url userAgent) s
        (fun _ t ↦ UniformSince s t) ↔
      (nonemptyStr? userAgent).getD defaultUserAgent = defaultUserAgent ∨
        ¬Continues services accessToken depth url userAgent s := by
  constructor
  · intro h
    by_cases hcontinues : Continues services accessToken depth url userAgent s
    · obtain ⟨nextAtpUrl, proxies, hsecond⟩ := ends_of_continues hcontinues
      obtain ⟨_, t, huniform, hmade⟩ := (h.and hsecond).exists
      refine .inl (by_contra fun hne ↦ not_uniformSince hmade ?_ huniform)
      exact fun hsame ↦ hne hsame.symm
    · exact .inr hcontinues
  · rintro (hdefault | hcontinues)
    · exact uniformSince_of_default hurl hdefault
    · exact uniformSince_of_not_continues hurl hcontinues

/-- What the collectors for Microsoft 365 send as their user agent. -/
def addOnUserAgent : Option String := some "M365DPartner-Splunk-MicrosoftSecurityAddOn/2.0.0"

/-- A single page is asked for with the user agent of the add-on. -/
theorem uniformSince_onePage : Ends (getAtpAlertsOdata (.ofServer none twoPages) (.str "token") 900
      "https://api.security.microsoft.com/api/alerts?$skip=1" addOnUserAgent) []
    (fun _ t ↦ UniformSince [] t) := by
  refine (uniformSince_iff _ _ 900 addOnUserAgent [] (by decide +kernel)).mpr (.inr ?_)
  rintro ⟨-, proxies, alerts, nextAtpUrl, -, hanswer⟩
  have honly : followUp (twoPages "https://api.security.microsoft.com/api/alerts?$skip=1") =
      .ok ([.obj [("id", .str "da2")]], none) := by rfl
  cases honly.symm.trans hanswer

/-- The second page is not. -/
theorem not_uniformSince_twoPages : ¬Ends (getAtpAlertsOdata (.ofServer none twoPages)
      (.str "token") 900 "https://api.security.microsoft.com/api/alerts" addOnUserAgent) []
    (fun _ t ↦ UniformSince [] t) := by
  intro h
  have hcontinues : Continues (.ofServer none twoPages) (.str "token") 900
      "https://api.security.microsoft.com/api/alerts" addOnUserAgent [] :=
    ⟨by decide, none, [.obj [("id", .str "da1")]],
      "https://api.security.microsoft.com/api/alerts?$skip=1", rfl, by rfl⟩
  obtain ⟨nextAtpUrl, proxies, hsecond⟩ := ends_of_continues hcontinues
  obtain ⟨_, t, huniform, hmade⟩ := (h.and hsecond).exists
  have hne : defaultUserAgent ≠ (nonemptyStr? addOnUserAgent).getD defaultUserAgent := by
    decide +kernel
  exact not_uniformSince hmade hne huniform

end Odata

end MsSecurity
