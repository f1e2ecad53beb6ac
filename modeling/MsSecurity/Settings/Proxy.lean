import MsSecurity.Account.AccessToken
import MsSecurity.Settings.ClientProxy

/-!
# The proxy settings

Two functions read the same stanza: `get_proxy` makes a URL of it for the HTTP client, and
`get_proxy_dict_for_eventhub` hands its values on for the event hub client. Between the URL and what
the HTTP client takes from it, the credentials are quoted for a form and unquoted for a path, and
the host is parted at its first `:` and written in lower case. So the two functions describe the
same proxy exactly if the host has neither, and the credentials, if they are used, have no space
(`sameProxy_iff`).
-/

namespace MsSecurity

/-- The settings of the `proxy` stanza; one without a value is left out. -/
abbrev ProxyStanza := Dict String

/-- What `get_proxy_dict_for_eventhub` returns; without credentials it has no keys for them. -/
structure EventHubProxy where
  proxyHostname : Option String
  proxyPort : ℤ
  username : Option String
  password : Option String
  deriving DecidableEq

namespace ProxyStanza

variable (proxy : ProxyStanza)

/-- `is_false(proxy.get("proxy_enabled", 0))`. -/
def isOff : Bool := isFalseStr ((Dict.get proxy "proxy_enabled").getD "0")

/-- `proxy_address`. -/
def address : String :=
  (Dict.get proxy "proxy_url").getD "None" ++ ":" ++ (Dict.get proxy "proxy_port").getD "None"

/-- The credentials, which are used if neither is empty. -/
def credentials : Option (String × String) :=
  match nonemptyStr? (Dict.get proxy "proxy_username"),
    nonemptyStr? (Dict.get proxy "proxy_password") with
  | some username, some password => some (username, password)
  | _, _ => none

/-- `proxy_url`. -/
def url : String :=
  match proxy.credentials with
  | some (username, password) =>
    "http://" ++ quotePlus username ++ ":" ++ quotePlus password ++ "@" ++ proxy.address
  | none => "http://" ++ proxy.address

/-- `int(proxy.get("proxy_port"))`. -/
def intPort : Except PyError ℤ :=
  match Dict.get proxy "proxy_port" with
  | some port => parseInt port
  | none => .error .typeError

end ProxyStanza

/-- What `get_proxy` makes of the stanza. -/
def proxiesOf (proxy : ProxyStanza) : Option Proxies :=
  if proxy.isEmpty ∨ proxy.isOff then none else some [("http", proxy.url), ("https", proxy.url)]

/-- What `get_proxy_dict_for_eventhub` makes of the stanza. -/
def eventHubProxyOf (proxy : ProxyStanza) : Except PyError (Option EventHubProxy) :=
  if proxy.isEmpty ∨ proxy.isOff then .ok none
  else do
    let proxyPort ← proxy.intPort
    return some ⟨Dict.get proxy "proxy_url", proxyPort, proxy.credentials.map Prod.fst,
      proxy.credentials.map Prod.snd⟩

/-- The pattern `^[a-zA-Z0-9:][a-zA-Z0-9\.\-:]+$` of the configuration page. -/
def matchesHostPattern : List Char → Bool
  | [] => false
  | first :: rest => (first.isAlphanum || first = ':') && !rest.isEmpty &&
    rest.all fun c ↦ c.isAlphanum || c ∈ ['.', '-', ':']

/-! ## The same proxy -/

/-- The HTTP client takes from the URL what the event hub client is given. -/
def Describes (url : String) (proxy : EventHubProxy) : Prop :=
  ∃ client, clientProxy url = some client ∧ proxy.proxyHostname = some client.host ∧
    client.port.map Int.ofNat = some proxy.proxyPort ∧
    client.username = proxy.username.getD "" ∧ client.password = proxy.password.getD ""

/-- Neither function has a proxy, or both have the same one. -/
def SameProxy (proxy : ProxyStanza) : Prop :=
  match proxiesOf proxy, eventHubProxyOf proxy with
  | none, .ok none => True
  | some proxies, .ok (some eventHubProxy) =>
    ∀ scheme ∈ ["http", "https"], ∃ url, proxies.get scheme = some url ∧
      Describes url eventHubProxy
  | _, _ => False

/-! ## What the client takes from the URL -/

/-- The credentials in the URL. -/
def credentialsText : Option (String × String) → List Char
  | some (username, password) =>
    ((quotePlus username).toList ++ ':' :: (quotePlus password).toList) ++ ['@']
  | none => []

namespace ProxyStanza

/-- The stanza has a host of the pattern, and an integer port in the range. -/
structure Configured (proxy : ProxyStanza) (host port : String) : Prop where
  host_eq : Dict.get proxy "proxy_url" = some host
  pattern : matchesHostPattern host.toList
  port_eq : Dict.get proxy "proxy_port" = some port
  digits : ∀ c ∈ port.toList, c.isDigit
  pos : 1 ≤ digitsValue port.toList
  le : digitsValue port.toList ≤ 65535

variable {proxy : ProxyStanza} {host port : String}

theorem toList_url (h : proxy.Configured host port) : proxy.url.toList = "http://".toList ++
    (credentialsText proxy.credentials ++ (host.toList ++ ':' :: port.toList)) := by
  have haddress : proxy.address.toList = host.toList ++ ':' :: port.toList := by
    rw [address, h.host_eq, h.port_eq, Option.getD_some, Option.getD_some, String.toList_append,
      String.toList_append, List.append_assoc]
    rfl
  rw [url]
  cases proxy.credentials with
  | none => rw [credentialsText, String.toList_append, haddress, List.nil_append]
  | some credentials =>
    simp only [credentialsText, String.toList_append, haddress, List.append_assoc]
    rfl

theorem mem_of_pattern (h : proxy.Configured host port) {c : Char} (hc : c ∈ host.toList) :
    c.isAlphanum ∨ c ∈ ['.', '-', ':'] := by
  have hpattern := h.pattern
  cases hhost : host.toList with
  | nil =>
    rw [hhost] at hc
    exact absurd hc List.not_mem_nil
  | cons first rest =>
    rw [hhost] at hc hpattern
    simp only [matchesHostPattern, Bool.and_eq_true, Bool.or_eq_true, decide_eq_true_eq,
      List.all_eq_true] at hpattern
    rcases List.mem_cons.mp hc with rfl | hc
    · rcases hpattern.1.1 with hfirst | rfl
      · exact Or.inl hfirst
      · exact Or.inr (by decide)
    · exact hpattern.2 c hc

/-- The host and the port have no other delimiter than `:`. -/
theorem not_delimiter_of_mem_host (h : proxy.Configured host port) {c : Char}
    (hc : c ∈ host.toList) : c ∉ ['\\', '/', '?', '#', '@', '[', ']', '%'] := by
  intro hmem
  have hall : ∀ c ∈ ['\\', '/', '?', '#', '@', '[', ']', '%'],
      ¬(c.isAlphanum ∨ c ∈ ['.', '-', ':']) := List.forall_iff_forall_mem.mp (by decide)
  exact hall c hmem (mem_of_pattern h hc)

theorem not_delimiter_of_isDigit {c : Char} (hc : c.isDigit) :
    c ∉ ['\\', '/', '?', '#', '@', ':'] := by
  intro hmem
  have hall : ∀ c ∈ ['\\', '/', '?', '#', '@', ':'], ¬c.isDigit :=
    List.forall_iff_forall_mem.mp (by decide)
  exact hall c hmem hc

theorem not_delimiter_of_isQuoted {c : Char} (hc : isQuoted c) :
    c ∉ ['\\', '/', '?', '#', '@', ':'] := by
  intro hmem
  have hall : ∀ c ∈ ['\\', '/', '?', '#', '@', ':'], ¬isQuoted c :=
    List.forall_iff_forall_mem.mp (by decide)
  exact hall c hmem hc

theorem at_not_mem (h : proxy.Configured host port) : '@' ∉ host.toList ++ ':' :: port.toList := by
  rw [List.mem_append, List.mem_cons, not_or, not_or]
  refine ⟨fun hmem ↦ ?_, by decide, fun hmem ↦ ?_⟩
  · exact not_delimiter_of_mem_host h hmem (by decide)
  · exact not_delimiter_of_isDigit (h.digits _ hmem) (by decide)

theorem netloc_url (h : proxy.Configured host port) {ends : List Char}
    (hends : ends ⊆ ['\\', '/', '?', '#']) : netloc ends proxy.url =
      credentialsText proxy.credentials ++ (host.toList ++ ':' :: port.toList) := by
  have hquoted {text : String} {c : Char} (hc : c ∈ (quotePlus text).toList) :
      c ∉ ['\\', '/', '?', '#'] := fun hmem ↦
    not_delimiter_of_isQuoted (isQuoted_of_mem_quotePlus hc) (List.mem_append_left ['@', ':'] hmem)
  refine netloc_eq (toList_url h) fun c hc hmem ↦ ?_
  replace hmem := hends hmem
  rcases List.mem_append.mp hc with hc | hc
  · cases hcredentials : proxy.credentials with
    | none =>
      rw [hcredentials] at hc
      exact absurd hc List.not_mem_nil
    | some credentials =>
      rw [hcredentials, credentialsText, List.mem_append, List.mem_append, List.mem_cons,
        List.mem_singleton] at hc
      rcases hc with (hc | rfl | hc) | rfl
      · exact hquoted hc hmem
      · exact absurd hmem (by decide)
      · exact hquoted hc hmem
      · exact absurd hmem (by decide)
  · rw [List.mem_append, List.mem_cons] at hc
    rcases hc with hc | rfl | hc
    · exact not_delimiter_of_mem_host h hc (List.mem_append_left ['@', '[', ']', '%'] hmem)
    · exact absurd hmem (by decide)
    · exact not_delimiter_of_isDigit (h.digits c hc) (List.mem_append_left ['@', ':'] hmem)

theorem rpartition?_netloc (h : proxy.Configured host port) :
    rpartition? '@' (credentialsText proxy.credentials ++ (host.toList ++ ':' :: port.toList)) =
      proxy.credentials.map fun credentials ↦
        ((quotePlus credentials.1).toList ++ ':' :: (quotePlus credentials.2).toList,
          host.toList ++ ':' :: port.toList) := by
  cases proxy.credentials with
  | none => exact rpartition?_eq_none (at_not_mem h)
  | some credentials =>
    rw [credentialsText, List.append_assoc, List.singleton_append,
      rpartition?_append (at_not_mem h)]
    rfl

theorem getAuthFromUrl_url (h : proxy.Configured host port) : getAuthFromUrl proxy.url =
    (proxy.credentials.map fun credentials ↦
      (unquote (quotePlus credentials.1), unquote (quotePlus credentials.2))).getD ("", "") := by
  rw [getAuthFromUrl, netloc_url h (by decide), rpartition?_netloc h]
  cases proxy.credentials with
  | none => rfl
  | some credentials =>
    have hcolon : ':' ∉ (quotePlus credentials.1).toList := fun hmem ↦
      not_delimiter_of_isQuoted (isQuoted_of_mem_quotePlus hmem) (by decide)
    simp only [Option.map_some, Option.bind_some, partition?_append hcolon, String.ofList_toList,
      Option.getD_some]

theorem isAscii_of_mem_host (h : proxy.Configured host port) {c : Char} (hc : c ∈ host.toList) :
    c.toNat < 128 := by
  rcases mem_of_pattern h hc with hc | hc
  · have hle : c.val ≤ 'Z'.val ∨ c.val ≤ 'z'.val ∨ c.val ≤ '9'.val := by
      obtain hc | hdigit := Bool.or_eq_true_iff.mp hc
      · obtain hupper | hlower := Bool.or_eq_true_iff.mp hc
        · exact Or.inl (of_decide_eq_true hupper).2
        · exact Or.inr (Or.inl (of_decide_eq_true (Bool.and_eq_true_iff.mp hlower).2))
      · exact Or.inr (Or.inr (of_decide_eq_true (Bool.and_eq_true_iff.mp hdigit).2))
    obtain hle | hle | hle := hle <;>
      exact Nat.lt_of_le_of_lt (UInt32.le_iff_toNat_le.mp hle) (by decide)
  · have hall : ∀ c ∈ ['.', '-', ':'], c.toNat < 128 :=
      List.forall_iff_forall_mem.mp (by decide)
    exact hall c hc

/-- The client raises at a second `:`, and takes the host in lower case. -/
theorem parseUrl_url (h : proxy.Configured host port) : parseUrl proxy.url =
    if ':' ∈ host.toList then none
    else some (String.ofList (host.toList.map Char.toLower), some (digitsValue port.toList)) := by
  have hhostPort : ((rpartition? '@' (credentialsText proxy.credentials ++
      (host.toList ++ ':' :: port.toList))).map Prod.snd).getD (credentialsText proxy.credentials ++
        (host.toList ++ ':' :: port.toList)) = host.toList ++ ':' :: port.toList := by
    rw [rpartition?_netloc h]
    cases proxy.credentials <;> rfl
  have hne : port.toList ≠ [] := by
    intro hnil
    have hpos := h.pos
    rw [hnil] at hpos
    exact absurd hpos (by decide)
  have hdelimiter : ∀ c ∈ host.toList, c ∉ ['[', ']', '%', '/', '?', '#'] := by
    intro c hc hmem
    refine not_delimiter_of_mem_host h hc ?_
    have hall : ∀ c ∈ ['[', ']', '%', '/', '?', '#'],
        c ∈ ['\\', '/', '?', '#', '@', '[', ']', '%'] :=
      List.forall_iff_forall_mem.mp (by decide)
    exact hall c hmem
  have hascii : host.toList.all fun c ↦ c.toNat < 128 :=
    List.all_eq_true.mpr fun c hc ↦ decide_eq_true (isAscii_of_mem_host h hc)
  rw [parseUrl]
  dsimp only
  rw [netloc_url h (by decide), hhostPort, hostPort?_append hdelimiter hne h.digits h.le]
  split_ifs with hcolon
  · rfl
  · exact if_pos hascii

end ProxyStanza

/-! ## Agreement -/

theorem toLower_eq_self_iff {c : Char} : c.toLower = c ↔ ¬c.isUpper := by
  by_cases hupper : c.isUpper
  · have hall : ∀ n < 91, 65 ≤ n → (Char.ofNat n).toLower ≠ Char.ofNat n := by decide
    have hrange : 'A'.val ≤ c.val ∧ c.val ≤ 'Z'.val := of_decide_eq_true hupper
    have hne := hall c.toNat (Nat.lt_succ_of_le hrange.2) hrange.1
    rw [Char.ofNat_toNat] at hne
    exact iff_of_false hne (not_not.mpr hupper)
  · have hsame : c.toLower = c := dif_neg fun hrange ↦ hupper (decide_eq_true hrange)
    exact iff_of_true hsame hupper

theorem map_toLower_eq_self_iff {host : List Char} :
    host.map Char.toLower = host ↔ ∀ c ∈ host, ¬c.isUpper := by
  conv_lhs => rw [← List.map_id host, List.map_map]
  rw [List.map_inj_left]
  exact forall₂_congr fun c _ ↦ toLower_eq_self_iff

/-- The credentials come back unless there is a space in them. -/
theorem ProxyStanza.credentials_unquote_iff {proxy : ProxyStanza} :
    (((proxy.credentials.map fun credentials ↦
          (unquote (quotePlus credentials.1), unquote (quotePlus credentials.2))).getD ("", "")).1 =
        (proxy.credentials.map Prod.fst).getD "" ∧
      ((proxy.credentials.map fun credentials ↦
          (unquote (quotePlus credentials.1), unquote (quotePlus credentials.2))).getD ("", "")).2 =
        (proxy.credentials.map Prod.snd).getD "") ↔
      ∀ username password, proxy.credentials = some (username, password) →
        ' ' ∉ username.toList ∧ ' ' ∉ password.toList := by
  cases proxy.credentials with
  | none => exact iff_of_true ⟨rfl, rfl⟩ fun _ _ hnone ↦ nomatch hnone
  | some credentials =>
    obtain ⟨username, password⟩ := credentials
    simp only [Option.map_some, Option.getD_some, unquote_quotePlus_eq_iff, Option.some_inj,
      Prod.mk.injEq]
    constructor
    · rintro hspaces _ _ ⟨rfl, rfl⟩
      exact hspaces
    · exact fun hall ↦ hall _ _ ⟨rfl, rfl⟩

theorem clientProxy_url {proxy : ProxyStanza} {host port : String}
    (h : proxy.Configured host port) : clientProxy proxy.url =
      if ':' ∈ host.toList then none
      else some ⟨String.ofList (host.toList.map Char.toLower), some (digitsValue port.toList),
        (getAuthFromUrl proxy.url).1, (getAuthFromUrl proxy.url).2⟩ := by
  have hne : String.ofList (host.toList.map Char.toLower) ≠ "" := by
    intro hnil
    rw [String.ofList_eq_empty_iff, List.map_eq_nil_iff] at hnil
    have hpattern := h.pattern
    rw [hnil] at hpattern
    cases hpattern
  rw [clientProxy, ProxyStanza.parseUrl_url h]
  split_ifs with hcolon
  · rfl
  · exact if_neg hne

theorem describes_url_iff {proxy : ProxyStanza} {host port : String}
    (h : proxy.Configured host port) :
    Describes proxy.url ⟨some host, digitsValue port.toList, proxy.credentials.map Prod.fst,
      proxy.credentials.map Prod.snd⟩ ↔
      (':' ∉ host.toList ∧ ∀ c ∈ host.toList, ¬c.isUpper) ∧
        ∀ username password, proxy.credentials = some (username, password) →
          ' ' ∉ username.toList ∧ ' ' ∉ password.toList := by
  rw [Describes, clientProxy_url h, ProxyStanza.getAuthFromUrl_url h]
  split_ifs with hcolon
  · refine iff_of_false ?_ fun hall ↦ hall.1.1 hcolon
    rintro ⟨client, hclient, -⟩
    cases hclient
  · have hhost : some host = some (String.ofList (host.toList.map Char.toLower)) ↔
        ∀ c ∈ host.toList, ¬c.isUpper := by
      rw [Option.some_inj, ← map_toLower_eq_self_iff, ← String.toList_inj, String.toList_ofList,
        eq_comm]
    rw [and_iff_right hcolon, ← hhost, ← ProxyStanza.credentials_unquote_iff]
    constructor
    · rintro ⟨client, hclient, hname, -, husername, hpassword⟩
      obtain rfl := Option.some.inj hclient
      exact ⟨hname, husername, hpassword⟩
    · rintro ⟨hname, husername, hpassword⟩
      exact ⟨_, rfl, hname, rfl, husername, hpassword⟩

theorem sameProxy_iff_describes {proxy : ProxyStanza} {host port : String}
    (h : proxy.Configured host port) : SameProxy proxy ↔ proxy.isOff ∨
      Describes proxy.url ⟨some host, digitsValue port.toList, proxy.credentials.map Prod.fst,
        proxy.credentials.map Prod.snd⟩ := by
  have hempty : ¬proxy.isEmpty := by
    intro hempty
    have hhost := h.host_eq
    rw [List.isEmpty_iff.mp hempty] at hhost
    cases hhost
  have hport : proxy.intPort = .ok (digitsValue port.toList : ℤ) := by
    rw [ProxyStanza.intPort, h.port_eq]
    refine parseInt_of_isDigit ?_ h.digits
    rintro rfl
    exact absurd h.pos (by decide)
  by_cases hoff : proxy.isOff
  · refine iff_of_true ?_ (Or.inl hoff)
    rw [SameProxy, proxiesOf, eventHubProxyOf, if_pos (Or.inr hoff), if_pos (Or.inr hoff)]
    trivial
  · have hon : ¬(proxy.isEmpty ∨ proxy.isOff) := not_or.mpr ⟨hempty, hoff⟩
    rw [or_iff_right hoff, SameProxy, proxiesOf, eventHubProxyOf, if_neg hon, if_neg hon, hport,
      h.host_eq]
    constructor
    · intro hboth
      obtain ⟨url, hurl, hdescribes⟩ := hboth "http" (by decide)
      obtain rfl := Option.some.inj hurl
      exact hdescribes
    · intro hdescribes scheme hscheme
      rw [List.mem_cons, List.mem_singleton] at hscheme
      rcases hscheme with rfl | rfl <;> exact ⟨_, rfl, hdescribes⟩

/-- **The same proxy.** The two functions describe the same proxy if and only if it is off, or its
host has neither a colon nor an upper-case letter and its credentials, if there are both, have no
space. -/
theorem sameProxy_iff {proxy : ProxyStanza} {host port : String}
    (h : proxy.Configured host port) : SameProxy proxy ↔ proxy.isOff ∨
      (':' ∉ host.toList ∧ ∀ c ∈ host.toList, ¬c.isUpper) ∧
        ∀ username password, proxy.credentials = some (username, password) →
          ' ' ∉ username.toList ∧ ' ' ∉ password.toList := by
  rw [sameProxy_iff_describes h, describes_url_iff h]

/-! ## A password with a space -/

def proxyWithPassword (password : String) : ProxyStanza :=
  [("proxy_enabled", "1"), ("proxy_url", "proxy.example.com"), ("proxy_port", "8080"),
    ("proxy_username", "splunk"), ("proxy_password", password)]

theorem configured_proxyWithPassword (password : String) :
    (proxyWithPassword password).Configured "proxy.example.com" "8080" where
  host_eq := rfl
  pattern := by decide
  port_eq := rfl
  digits := List.forall_iff_forall_mem.mp (by decide)
  pos := by decide
  le := by decide

theorem credentials_proxyWithPassword {password : String} (h : password ≠ "") :
    (proxyWithPassword password).credentials = some ("splunk", password) := by
  have husername : nonemptyStr? (Dict.get (proxyWithPassword password) "proxy_username") =
      some "splunk" := nonemptyStr?_eq_some_iff.mpr ⟨rfl, by decide⟩
  have hpassword : nonemptyStr? (Dict.get (proxyWithPassword password) "proxy_password") =
      some password := nonemptyStr?_eq_some_iff.mpr ⟨rfl, h⟩
  rw [ProxyStanza.credentials, husername, hpassword]

theorem sameProxy_proxyWithPassword : SameProxy (proxyWithPassword "p@ss:w+rd/é") := by
  rw [sameProxy_iff (configured_proxyWithPassword _), credentials_proxyWithPassword (by decide)]
  refine Or.inr ⟨⟨by decide, List.forall_iff_forall_mem.mp (by decide)⟩,
    fun username password h ↦ ?_⟩
  rw [Option.some_inj, Prod.mk.injEq] at h
  rw [← h.1, ← h.2]
  decide

/-- The space of the password comes back as `+`. -/
theorem not_sameProxy : ¬SameProxy (proxyWithPassword "open sesame") := by
  rw [sameProxy_iff_describes (configured_proxyWithPassword _),
    describes_url_iff (configured_proxyWithPassword _),
    credentials_proxyWithPassword (by decide)]
  rintro (hoff | ⟨-, hspaces⟩)
  · exact absurd hoff (by decide)
  · exact absurd (hspaces "splunk" "open sesame" rfl).2 (by decide)

end MsSecurity
