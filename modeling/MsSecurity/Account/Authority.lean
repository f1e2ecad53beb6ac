import MsSecurity.Account.AccessToken
import Mathlib.Data.List.Infix
import Mathlib.Data.List.TakeDrop

/-!
# The authority of a delegated login

A user logs in at the authority that `INCIDENT_ENVS` has for the environment, with the tenant put
in. When the cached login is used later, `get_access_token` recovers the authority from the URL of
the token endpoint: it looks for the first `oauth2` in it and cuts the URL there. The two are the
same exactly if the tenant does not have `oauth2` in it (`sameAuthority_iff`).
-/

namespace MsSecurity

/-! ## The interactive login -/

/-- An entry of `INCIDENT_ENVS`. -/
structure IncidentEnv where
  authority : String
  scope : String
  deriving DecidableEq

/-- `INCIDENT_ENVS`, which both handlers of the login have. -/
def incidentEnvs : Dict IncidentEnv :=
  [("default", ⟨"https://login.windows.net/{}",
      "https://api.security.microsoft.com/Incident.Read"⟩),
    ("commercial", ⟨"https://login.microsoftonline.com/{}",
      "https://api.security.microsoft.com/Incident.Read"⟩),
    ("gcc", ⟨"https://login.microsoftonline.com/{}", "https://api-gcc.security.microsoft.us"⟩),
    ("gcc-high", ⟨"https://login.microsoftonline.us/{}", "https://api-gov.security.microsoft.us"⟩),
    ("commercial-graph-api", ⟨"https://login.microsoftonline.com/{}",
      "https://graph.microsoft.com/.default"⟩),
    ("gcc-high-graph-api", ⟨"https://login.microsoftonline.us/{}",
      "https://graph.microsoft.us/.default"⟩)]

/-- `INCIDENT_ENVS[environment]['authority'].format(tenant_id)`. -/
def IncidentEnv.authorityFor (env : IncidentEnv) (tenantId : String) : String :=
  formatOne env.authority tenantId

/-- The authority that is cut out of the token URL is the one the user logged in at. -/
def SameAuthority (environment tenantId : String) : Prop :=
  ∀ env urls, incidentEnvs.get environment = some env →
    getUrlsByEnvironment (some environment) (some tenantId) = .ok urls →
      authorityOf urls.authorization = env.authorityFor tenantId

/-! ## First occurrences -/

section Occurrences

variable {α : Type*} {c : α} {sub a b : List α}

theorem prefix_append_cons_iff (hc : c ∉ sub) : sub <+: a ++ c :: b ↔ sub <+: a := by
  induction a generalizing sub with
  | nil =>
    cases sub with
    | nil => simp
    | cons d sub =>
      rw [List.nil_append, List.cons_prefix_cons, List.prefix_nil]
      simpa using fun hd ↦ absurd hd.symm (List.ne_of_not_mem_cons hc)
  | cons d a ih =>
    cases sub with
    | nil => simp
    | cons d' sub =>
      rw [List.cons_append, List.cons_prefix_cons, List.cons_prefix_cons,
        ih (List.not_mem_of_not_mem_cons hc)]

theorem infix_append_cons_iff (hc : c ∉ sub) :
    sub <:+: a ++ c :: b ↔ sub <:+: a ∨ sub <:+: b := by
  induction a with
  | nil =>
    have hnil := prefix_append_cons_iff (a := []) (b := b) hc
    rw [List.nil_append] at hnil ⊢
    rw [List.infix_cons_iff, hnil, List.prefix_nil, List.infix_nil]
  | cons d a ih =>
    have hcons := prefix_append_cons_iff (a := d :: a) (b := b) hc
    rw [List.cons_append] at hcons ⊢
    rw [List.infix_cons_iff, List.infix_cons_iff, hcons, ih, or_assoc]

end Occurrences

theorem infix_iff_prefix_drop {α : Type*} {sub s : List α} :
    sub <:+: s ↔ ∃ n ≤ s.length, sub <+: s.drop n := by
  rw [List.infix_iff_prefix_suffix]
  constructor
  · rintro ⟨t, hsub, ht⟩
    rw [List.suffix_iff_eq_drop] at ht
    exact ⟨s.length - t.length, Nat.sub_le .., ht ▸ hsub⟩
  · rintro ⟨n, -, h⟩
    exact ⟨s.drop n, h, List.drop_suffix n s⟩

theorem find_eq_natCast_iff {s sub : String} {n : ℕ} : find s sub = n ↔
    sub.toList <+: s.toList.drop n ∧ n ≤ s.toList.length ∧
      ∀ j < n, ¬sub.toList <+: s.toList.drop j := by
  have hfind : find s sub = n ↔ (s.toList.tails.findIdx? fun rest ↦
      sub.toList.isPrefixOf rest) = some n := by
    rw [find]
    split
    · rename_i m hm
      rw [hm, Option.some_inj]
      exact Int.ofNat_inj
    · rename_i hm
      rw [hm]
      simp
  have hlength : n < s.toList.tails.length ↔ n ≤ s.toList.length := by
    rw [List.length_tails, Nat.lt_succ_iff]
  rw [hfind, List.findIdx?_eq_some_iff_getElem]
  simp only [List.getElem_tails, List.isPrefixOf_iff_prefix, exists_prop, hlength, and_left_comm]

theorem exists_find_le {s sub : String} {n : ℕ} (hn : n ≤ s.toList.length)
    (hsub : sub.toList <+: s.toList.drop n) : ∃ m ≤ n, find s sub = (m : ℕ) := by
  induction n using Nat.strong_induction_on with
  | _ n ih =>
    by_cases hearlier : ∃ j < n, sub.toList <+: s.toList.drop j
    · obtain ⟨j, hj, hsubj⟩ := hearlier
      obtain ⟨m, hm, hfind⟩ := ih j hj (hj.le.trans hn) hsubj
      exact ⟨m, hm.trans hj.le, hfind⟩
    · refine ⟨n, le_rfl, find_eq_natCast_iff.mpr ⟨hsub, hn, fun j hj h ↦ ?_⟩⟩
      exact hearlier ⟨j, hj, h⟩

theorem sliceTo_natCast (s : String) (n : ℕ) : sliceTo s n = String.ofList (s.toList.take n) := by
  simp [sliceTo]

/-! ## Templates -/

theorem toList_formatOne {template arg : String} {before after : List Char}
    (htemplate : template.toList = before ++ '\x7b' :: '\x7d' :: after)
    (hbefore : '\x7b' ∉ before) :
    (formatOne template arg).toList = before ++ (arg.toList ++ after) := by
  rw [formatOne, String.toList_ofList, htemplate]
  clear htemplate
  induction before with
  | nil => rw [List.nil_append, List.nil_append, formatOne.go]
  | cons c before ih =>
    rw [List.mem_cons, not_or] at hbefore
    rw [List.cons_append, formatOne.go, ih hbefore.2, List.cons_append]
    rintro _ rfl
    exact absurd rfl hbefore.1

/-- The two tables have the same host for an environment, and put the tenant behind it. -/
theorem exists_host {environment : String} {env : IncidentEnv} {urls : ApiUrls}
    (henv : incidentEnvs.get environment = some env)
    (hurls : urlsByEnvironment.get environment = some urls) : ∃ host after,
      env.authority.toList = (host ++ ['/']) ++ '\x7b' :: '\x7d' :: [] ∧
      urls.authorization.toList = (host ++ ['/']) ++ '\x7b' :: '\x7d' :: '/' ::
        ("oauth2".toList ++ after) ∧
      '\x7b' ∉ host ++ ['/'] ∧ ¬"oauth2".toList <:+: host := by
  have hmem : (environment, env) ∈ incidentEnvs := by
    obtain ⟨before, after, heq, -⟩ := List.lookup_eq_some_iff.mp henv
    rw [heq]
    exact List.mem_append_right before List.mem_cons_self
  simp only [incidentEnvs, List.mem_cons, List.not_mem_nil, or_false, Prod.mk.injEq] at hmem
  rcases hmem with ⟨rfl, rfl⟩ | ⟨rfl, rfl⟩ | ⟨rfl, rfl⟩ | ⟨rfl, rfl⟩ | ⟨rfl, rfl⟩ | ⟨rfl, rfl⟩ <;>
    obtain rfl := Option.some.inj hurls
  · exact ⟨"https://login.windows.net".toList, "/token".toList, by decide +kernel⟩
  · exact ⟨"https://login.microsoftonline.com".toList, "/token".toList, by decide +kernel⟩
  · exact ⟨"https://login.microsoftonline.com".toList, "/token".toList, by decide +kernel⟩
  · exact ⟨"https://login.microsoftonline.us".toList, "/token".toList, by decide +kernel⟩
  · exact ⟨"https://login.microsoftonline.com".toList, "/v2.0/token".toList, by decide +kernel⟩
  · exact ⟨"https://login.microsoftonline.us".toList, "/v2.0/token".toList, by decide +kernel⟩

/-! ## The two authorities -/

/-- A token URL is cut at the right place unless what it is cut at occurs in the authority. -/
theorem authorityOf_eq_iff {url : String} {base after : List Char}
    (hurl : url.toList = base ++ '/' :: ("oauth2".toList ++ after)) :
    authorityOf url = String.ofList base ↔ ¬"oauth2".toList <:+: base := by
  have hslash : '/' ∉ "oauth2".toList := by decide
  constructor
  · intro hauthority hinfix
    obtain ⟨n, hn, hsub⟩ := infix_iff_prefix_drop.mp hinfix
    obtain ⟨m, hm, hfind⟩ : ∃ m ≤ n, find url "oauth2" = (m : ℕ) := by
      refine exists_find_le ?_ ?_
      · rw [hurl, List.length_append]
        omega
      · rw [hurl, List.drop_append_of_le_length hn]
        exact (prefix_append_cons_iff hslash).mpr hsub
    rw [authorityOf, hfind] at hauthority
    -- the cut is too early, except for a search that succeeds at once, where it is too late
    cases m with
    | zero =>
      have hlength := congrArg (fun s ↦ s.toList.length) hauthority
      simp [sliceTo, ← String.length_toList, hurl] at hlength
    | succ m =>
      rw [Int.natCast_succ, Int.add_sub_cancel, sliceTo_natCast, hurl,
        String.ofList_inj] at hauthority
      have hlength := congrArg List.length hauthority
      simp at hlength
      omega
  · intro hinfix
    have hfind : find url "oauth2" = (base.length + 1 : ℕ) := by
      refine find_eq_natCast_iff.mpr ⟨?_, ?_, fun j hj hsub ↦ hinfix ?_⟩
      · rw [hurl, List.drop_length_add_append]
        exact List.prefix_append _ _
      · rw [hurl, List.length_append, List.length_cons]
        omega
      · rw [hurl, List.drop_append_of_le_length (Nat.le_of_lt_succ hj),
          prefix_append_cons_iff hslash] at hsub
        exact infix_iff_prefix_drop.mpr ⟨j, Nat.le_of_lt_succ hj, hsub⟩
    rw [authorityOf, hfind, Int.natCast_succ, Int.add_sub_cancel, sliceTo_natCast, hurl,
      List.take_left]

theorem authorityOf_injectTenantId_eq_iff {environment tenantId : String} {env : IncidentEnv}
    {urls : ApiUrls} (henv : incidentEnvs.get environment = some env)
    (hurls : urlsByEnvironment.get environment = some urls) :
    authorityOf (injectTenantId urls tenantId).authorization = env.authorityFor tenantId ↔
      ¬"oauth2".toList <:+: tenantId.toList := by
  obtain ⟨host, after, hauthority, hurl, hbrace, hhost⟩ := exists_host henv hurls
  have hlogin : env.authorityFor tenantId = String.ofList (host ++ '/' :: tenantId.toList) := by
    apply String.toList_injective
    rw [IncidentEnv.authorityFor, toList_formatOne hauthority hbrace, String.toList_ofList,
      List.append_nil, List.append_assoc, List.singleton_append]
  have htoken : (injectTenantId urls tenantId).authorization.toList =
      (host ++ '/' :: tenantId.toList) ++ '/' :: ("oauth2".toList ++ after) := by
    rw [injectTenantId, toList_formatOne hurl hbrace]
    simp only [List.append_assoc, List.cons_append, List.nil_append]
  rw [hlogin, authorityOf_eq_iff htoken, infix_append_cons_iff (by decide)]
  exact not_congr (or_iff_right hhost)

/-- **The authority that is recovered from the token URL is the one of the login exactly if the
tenant does not have `oauth2` in it.** -/
theorem sameAuthority_iff {environment tenantId : String}
    (henv : (incidentEnvs.get environment).isSome)
    (hurls : (urlsByEnvironment.get environment).isSome) :
    SameAuthority environment tenantId ↔ ¬"oauth2".toList <:+: tenantId.toList := by
  obtain ⟨env, henv⟩ := Option.isSome_iff_exists.mp henv
  obtain ⟨urls, hurls⟩ := Option.isSome_iff_exists.mp hurls
  rw [← authorityOf_injectTenantId_eq_iff henv hurls]
  have hresolve {urls' : ApiUrls} (h : getUrlsByEnvironment (some environment) (some tenantId) =
      .ok urls') : urls' = injectTenantId urls tenantId := by
    obtain ⟨t, u, ht, hu, rfl⟩ := getUrlsByEnvironment_eq_ok_iff.mp h
    obtain rfl := Option.some.inj (nonemptyStr?_eq_some_iff.mp ht).1
    obtain rfl := Option.some.inj (hurls.symm.trans hu)
    rfl
  constructor
  · intro hsame
    by_cases htenant : tenantId = ""
    · -- there is no token URL without a tenant, but the two would agree
      subst htenant
      exact (authorityOf_injectTenantId_eq_iff henv hurls).mpr (by decide)
    · refine hsame env _ henv (getUrlsByEnvironment_eq_ok_iff.mpr ⟨tenantId, urls, ?_, hurls, rfl⟩)
      exact nonemptyStr?_eq_some_iff.mpr ⟨rfl, htenant⟩
  · intro hsame env' urls' henv' hurls'
    obtain rfl := Option.some.inj (henv.symm.trans henv')
    rw [hresolve hurls', hsame]

theorem sameAuthority_contoso :
    SameAuthority "gcc-high-graph-api" "contoso.onmicrosoft.us" ↔
      ¬"oauth2".toList <:+: "contoso.onmicrosoft.us".toList :=
  sameAuthority_iff (by decide) (by decide)

/-- The domain of the tenant has the text that the URL is cut at. -/
theorem not_sameAuthority : ¬SameAuthority "commercial" "oauth2test.onmicrosoft.com" := by
  intro hsame
  have h := hsame ⟨"https://login.microsoftonline.com/{}",
    "https://api.security.microsoft.com/Incident.Read"⟩ _ rfl rfl
  exact absurd h (by decide +kernel)

end MsSecurity
