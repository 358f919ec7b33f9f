import LinuxBuild.ShellWords
import LinuxBuild.Url

/-!
# The proxy of the guest

`guest_proxy` of `build-distro.py` and `proxy_export` of `distro_runtime.py`
choose a proxy from the same three variables. On the host's loopback interface
it is reached through the gateway of QEMU.
-/

namespace LinuxBuild.Proxy

open Sh Url

/-- `DISTRO_GUEST_PROXY`, `HTTPS_PROXY` and `https_proxy`. -/
structure Environment where
  guestProxy : Option Text
  upper : Option Text
  lower : Option Text
  deriving DecidableEq, Repr

/-- `os.environ.get('HTTPS_PROXY') or os.environ.get('https_proxy')`. -/
def Environment.hostProxy (env : Environment) : Option Text :=
  if env.upper.getD [] = [] then env.lower else env.upper

def gateway : Text := text "10.0.2.2"

def isLocal (url : Parts) : Bool :=
  url.hostname == some (text "localhost") || url.hostname == some (text "127.0.0.1")

/-- `f':{url.port}' if url.port else ''`. -/
def portText : Option Nat → Text
  | some n => if n = 0 then [] else ':' :: Nat.toDigits 10 n
  | none => []

/-- The block both functions have: a local host is replaced. -/
def throughGateway (lib : Library) (value : Text) : Except ValueError Text := do
  let url ← urlsplit lib value
  if isLocal url then
    let port ← url.port
    return urlunsplit { url with netloc := url.auth ++ gateway ++ portText port }
  else return value

def guestProxy (lib : Library) (env : Environment) : Except ValueError Text :=
  match env.guestProxy with
  | some value => .ok value
  | none =>
    let value := env.hostProxy.getD []
    if value = [] then .ok [] else throughGateway lib value

/-- `shlex.quote`. -/
def quote (s : Text) : Text :=
  if s = [] then text "''"
  else if s.all fun c => c.isAlphanum || (text "_@%+=:,./-").contains c then s
  else '\'' :: requoted s ++ ['\'']

/-- The value `proxy_export` starts from, empty where it has none. -/
def exportValue (env : Environment) : Text :=
  (match env.guestProxy with
  | some value => some value
  | none => env.hostProxy).getD []

def proxyExport (lib : Library) (env : Environment) : Except ValueError Text :=
  if exportValue env = [] then .ok (text "true")
  else do
    let value ← throughGateway lib (exportValue env)
    return text "export http_proxy=" ++ quote value ++ text "; export https_proxy=\"$http_proxy\""

/-! ## The exported value -/

/-- What a shell exports that runs the command: its first part is `export` with
`http_proxy` set to the proxy. -/
def Exports (command : Text) (proxy : Option Text) : Prop :=
  command = text "true" ∧ proxy = none ∨
    ∃ first value, command = first ++ text "; export https_proxy=\"$http_proxy\"" ∧
      proxy = some value ∧ ∀ listing, simpleCommand listing first =
        some ⟨[], [text "export", text "http_proxy=" ++ value]⟩

theorem export_first : (bare (text "export")).assignment? = none ∧
    (bare (text "export")).isReserved = false := by
  decide

theorem quoteSafe_ordinary {c : Char}
    (h : (c.isAlphanum || (text "_@%+=:,./-").contains c) = true) : isOrdinary c = true :=
  isOrdinary_of_class (p := fun c => c.isAlphanum || (text "_@%+=:,./-").contains c) (by decide) h

theorem export_ordinary : ∀ c ∈ text "http_proxy=", isOrdinary c = true := by
  have hall : (text "http_proxy=").all isOrdinary = true := by decide
  exact List.all_eq_true.mp hall

theorem export_lex : lex ⟨[], none, .plain⟩ (text "export http_proxy=") =
    some ⟨[.word (bare (text "export"))], some (.word (bare (text "http_proxy="))), .plain⟩ := by
  decide

theorem export_command (listing : Word → List Text) {command : Text} {w : Word}
    (htokens : tokens command = some ([bare (text "export"), w].map Token.word))
    (h : ∀ p ∈ w, p.quoted = false → isOrdinary p.char = true) :
    simpleCommand listing command = some ⟨[], [text "export", w.text]⟩ := by
  have hexport : ∀ p ∈ bare (text "export"), p.quoted = false → isOrdinary p.char = true := by
    decide
  have hcommand := simpleCommand_of_words listing [] htokens (by simp) export_first
  rw [hcommand]
  · rfl
  · intro v hv
    rcases List.mem_cons.mp hv with rfl | hv
    · exact arguments_plain listing hexport
    · rw [List.mem_singleton.mp hv]
      exact arguments_plain listing h

theorem quote_command (listing : Word → List Text) {value : Text} (h : value ≠ []) :
    simpleCommand listing (text "export http_proxy=" ++ quote value) =
      some ⟨[], [text "export", text "http_proxy=" ++ value]⟩ := by
  have hfront := bare_ordinary export_ordinary
  rw [quote, if_neg h]
  split
  · rename_i hsafe
    have hvalue : ∀ c ∈ value, isOrdinary c = true := fun c hc =>
      quoteSafe_ordinary (List.all_eq_true.mp hsafe c hc)
    have htokens : tokens (text "export http_proxy=" ++ value) =
        some ([bare (text "export"), bare (text "http_proxy=") ++ bare value].map Token.word) := by
      rw [tokens, lex_append, export_lex, Option.bind_some, lex_word hvalue]
      rfl
    rw [export_command listing htokens]
    · rw [text_append, text_bare, text_bare]
    · intro p hp
      rcases List.mem_append.mp hp with hp | hp
      · exact hfront p hp
      · exact bare_ordinary hvalue p hp
  · have htokens : tokens (text "export http_proxy=" ++ ('\'' :: requoted value ++ ['\''])) =
        some ([bare (text "export"), bare (text "http_proxy=") ++ quoted value].map Token.word) := by
      have hopen : lex ⟨[.word (bare (text "export"))], some (.word (bare (text "http_proxy="))),
          .plain⟩ ('\'' :: requoted value ++ ['\'']) =
          (lex ⟨[.word (bare (text "export"))], some (.word (bare (text "http_proxy="))),
            .single⟩ (requoted value)).bind fun s => lex s ['\''] := by
        rw [← lex_append]
        rfl
      rw [tokens, lex_append, export_lex, Option.bind_some, hopen, lex_requoted]
      rfl
    rw [export_command listing htokens]
    · rw [text_append, text_bare, text_quoted]
    · intro p hp hbare
      rcases List.mem_append.mp hp with hp | hp
      · exact hfront p hp hbare
      · obtain ⟨c, _, rfl⟩ := List.mem_map.mp hp
        cases hbare

theorem Exports.unique {command : Text} {a b : Option Text} (ha : Exports command a)
    (hb : Exports command b) : a = b := by
  have hlong : ∀ first, text "true" ≠ first ++ text "; export https_proxy=\"$http_proxy\"" := by
    intro first h
    have hshort : (text "true").length < (text "; export https_proxy=\"$http_proxy\"").length := by
      decide
    rw [h, List.length_append] at hshort
    omega
  rcases ha with ⟨hca, rfl⟩ | ⟨first, v, hca, rfl, hfirst⟩
  · rcases hb with ⟨_, rfl⟩ | ⟨first, v, hcb, _, _⟩
    · rfl
    · exact absurd (hca.symm.trans hcb) (hlong first)
  · rcases hb with ⟨hcb, _⟩ | ⟨other, w, hcb, rfl, hother⟩
    · exact absurd (hcb.symm.trans hca) (hlong first)
    · obtain rfl := List.append_cancel_right (hca.symm.trans hcb)
      have h := (hfirst fun _ => []).symm.trans (hother fun _ => [])
      simpa using h

/-! ## The host is replaced -/

/-- The URLs have the same parts but for the host. -/
structure OnlyHost (old new : Text) : Prop where
  scheme : (splitParts new).scheme = (splitParts old).scheme
  auth : (splitParts new).auth = (splitParts old).auth
  host : (splitParts new).hostname = some gateway
  port : (splitParts new).port = (splitParts old).port
  path : (splitParts new).path = (splitParts old).path
  query : (splitParts new).query = (splitParts old).query
  fragment : (splitParts new).fragment = (splitParts old).fragment

theorem netloc_of_local {url : Parts} (h : isLocal url = true) : url.netloc ≠ [] := by
  intro hnil
  have hnone : url.hostname = none := by
    simp [Parts.hostname, Parts.hostPort, Parts.hostinfo, hnil, Python.partition]
  rw [isLocal, hnone] at h
  cases h

/-- The port as it is written, if it is. -/
def portDigits : Option Nat → Text
  | some n => if n = 0 then [] else Nat.toDigits 10 n
  | none => []

theorem portText_eq (port : Option Nat) :
    portText port = if portDigits port = [] then [] else ':' :: portDigits port := by
  cases port with
  | none => rfl
  | some n =>
    by_cases hn : n = 0
    · simp [portText, portDigits, hn]
    · have hne : Nat.toDigits 10 n ≠ [] := Nat.toDigits_ne_nil
      simp [portText, portDigits, hn]

theorem digit_free {c : Char} (h : c.isDigit = true) :
    endsNetloc c = false ∧ isUnsafe c = false ∧ c ≠ '@' ∧ c ≠ '[' := by
  have hnot : ['/', '?', '#', '\t', '\r', '\n', '@', '['].all (fun d => !d.isDigit) = true := by
    decide
  have hne : ∀ d ∈ ['/', '?', '#', '\t', '\r', '\n', '@', '['], c ≠ d := by
    rintro d hd rfl
    have hdigit := List.all_eq_true.mp hnot c hd
    rw [h] at hdigit
    cases hdigit
  simp only [List.forall_mem_cons] at hne
  simp [endsNetloc, isUnsafe, hne]

theorem portDigits_digit (port : Option Nat) : ∀ c ∈ portDigits port, c.isDigit = true := by
  intro c hc
  cases port with
  | none => cases hc
  | some n =>
    simp only [portDigits] at hc
    split at hc
    · cases hc
    · exact Nat.isDigit_of_mem_toDigits (by decide) (by decide) hc

/-- Nothing of the new host and port ends the netloc or the credentials. -/
theorem gateway_free (port : Option Nat) : ∀ c ∈ gateway ++ portText port,
    endsNetloc c = false ∧ isUnsafe c = false ∧ c ≠ '@' ∧ c ≠ '[' := by
  have hgateway : gateway.all (fun c =>
      !endsNetloc c && !isUnsafe c && c != '@' && c != '[') = true := by decide
  intro c hc
  rcases List.mem_append.mp hc with hc | hc
  · simpa [and_assoc] using List.all_eq_true.mp hgateway c hc
  · rw [portText_eq] at hc
    obtain rfl | hc := mem_optional hc
    · decide
    · exact digit_free (portDigits_digit port c hc)

/-- The parts with the gateway, and what they are split from. -/
theorem replaced_parts {url : Parts} (hsound : url.Sound) (hlocal : isLocal url = true)
    (port : Option Nat) :
    let new : Parts := { url with netloc := url.auth ++ gateway ++ portText port }
    splitParts (urlunsplit new) = new ∧ new.auth = url.auth ∧
      new.hostPort = (gateway, portDigits port) := by
  intro new
  have hauth := url.auth_spec
  have hfree := gateway_free port
  have hnetloc : new.netloc = url.auth ++ (gateway ++ portText port) := List.append_assoc ..
  have hne : new.netloc ≠ [] := by
    rw [hnetloc]
    simp [gateway, text]
  have hnew : new.Sound :=
    { hsound with
      netloc := by
        intro c hc
        rw [hnetloc] at hc
        rcases List.mem_append.mp hc with hc | hc
        · apply hsound.netloc c
          rw [hauth.1]
          exact List.mem_append_left _ hc
        · exact ⟨(hfree c hc).1, (hfree c hc).2.1⟩
      slash := fun _ => hsound.slash (netloc_of_local hlocal) }
  obtain ⟨hinfo, hnewAuth⟩ := Parts.hostinfo_append hnetloc hauth.2
    (fun hat => (hfree _ hat).2.2.1 rfl)
  refine ⟨splitParts_urlunsplit hnew hne, hnewAuth, ?_⟩
  have hbracket : '[' ∉ gateway ++ portText port := fun h => (hfree _ h).2.2.2 rfl
  have hcolon : ':' ∉ gateway := by decide
  rw [Parts.hostPort, hinfo, if_neg hbracket, portText_eq]
  exact partition_optional hcolon

theorem hostname_of_hostPort {p : Parts} {port : Text} (h : p.hostPort = (gateway, port)) :
    p.hostname = some gateway := by
  have hgateway : gateway ≠ [] := by decide
  have hlower : (gateway.takeWhile (· ≠ '%')).map Char.toLower ++ gateway.dropWhile (· ≠ '%') =
      gateway := by decide
  simp only [Parts.hostname, h, if_neg hgateway, hlower]

theorem port_of_hostPort {p : Parts} {port : Option Nat} (h : p.hostPort = (gateway, portDigits port))
    (hport : ∀ n, port = some n → n ≤ 65535) :
    p.port = .ok (if port = some 0 then none else port) := by
  cases port with
  | none => simp [Parts.port, h, portDigits]
  | some n =>
    have hn := hport n rfl
    by_cases hzero : n = 0
    · simp [Parts.port, h, portDigits, hzero]
    · have hne : Nat.toDigits 10 n ≠ [] := Nat.toDigits_ne_nil
      simp [Parts.port, h, portDigits, hzero, int_toDigits, hn]

/-- What the block makes of a URL that is accepted. -/
theorem throughGateway_cases {lib : Library} {value : Text} {url : Parts}
    (h : urlsplit lib value = .ok url) :
    url = splitParts value ∧
      (isLocal url = false → throughGateway lib value = .ok value) ∧
      (isLocal url = true → ∀ e, url.port = .error e → throughGateway lib value = .error e) ∧
      (isLocal url = true → ∀ port, url.port = .ok port →
        throughGateway lib value =
          .ok (urlunsplit { url with netloc := url.auth ++ gateway ++ portText port })) := by
  have hparts : url = splitParts value := by
    unfold urlsplit at h
    simp only at h
    split at h
    · exact (Except.ok.inj h).symm
    · cases h
  refine ⟨hparts, ?_, ?_, ?_⟩
  · intro hlocal
    simp only [throughGateway, h, bind, Except.bind, hlocal]
    rfl
  · intro hlocal e hport
    simp only [throughGateway, h, bind, Except.bind, hlocal, if_true, hport]
  · intro hlocal port hport
    simp only [throughGateway, h, bind, Except.bind, hlocal, if_true, hport]
    rfl

theorem port_le {url : Parts} {n : Nat} (h : url.port = .ok (some n)) : n ≤ 65535 := by
  unfold Parts.port at h
  split at h
  · cases h
  · split at h
    · split at h
      · cases h
        assumption
      · cases h
    · cases h

/-- A local host is replaced and nothing else, except for port 0. -/
theorem replaced_onlyHost {value : Text} (hlocal : isLocal (splitParts value) = true)
    {port : Option Nat} (hport : (splitParts value).port = .ok port) (hzero : port ≠ some 0) :
    OnlyHost value (urlunsplit { splitParts value with
      netloc := (splitParts value).auth ++ gateway ++ portText port }) := by
  obtain ⟨hsplit, hauth, hhostPort⟩ := replaced_parts (splitParts_sound value) hlocal port
  have hbound : ∀ n, port = some n → n ≤ 65535 := fun n hn => port_le (hn ▸ hport)
  have hnewPort := port_of_hostPort hhostPort hbound
  rw [if_neg hzero] at hnewPort
  exact {
    scheme := by rw [hsplit]
    auth := by rw [hsplit, hauth]
    host := by rw [hsplit, hostname_of_hostPort hhostPort]
    port := by rw [hsplit, hnewPort, hport]
    path := by rw [hsplit]
    query := by rw [hsplit]
    fragment := by rw [hsplit] }

/-- The new URL is not the old one, and not empty. -/
theorem replaced_ne {value : Text} (hlocal : isLocal (splitParts value) = true)
    (port : Option Nat) :
    urlunsplit { splitParts value with
      netloc := (splitParts value).auth ++ gateway ++ portText port } ≠ value ∧
    urlunsplit { splitParts value with
      netloc := (splitParts value).auth ++ gateway ++ portText port } ≠ [] := by
  obtain ⟨hsplit, _, hhostPort⟩ := replaced_parts (splitParts_sound value) hlocal port
  have hhost := hostname_of_hostPort hhostPort
  constructor
  · intro heq
    rw [heq] at hsplit
    rw [← hsplit] at hhost
    rw [isLocal, hhost] at hlocal
    revert hlocal
    decide
  · intro hnil
    rw [hnil] at hsplit
    rw [← hsplit] at hhost
    revert hhost
    decide

/-! ## The two functions -/

/-- Both guests have one proxy, or none, or neither function returns. -/
def Agrees (lib : Library) (env : Environment) : Prop :=
  match guestProxy lib env, proxyExport lib env with
  | .ok value, .ok command => Exports command (if value = [] then none else some value)
  | .error _, .error _ => True
  | _, _ => False

/-- Where a local host is replaced, only the host changes. -/
def Preserves (lib : Library) (env : Environment) : Prop :=
  exportValue env ≠ [] → isLocal (splitParts (exportValue env)) = true →
    ∀ new, throughGateway lib (exportValue env) = .ok new → OnlyHost (exportValue env) new

/-- `DISTRO_GUEST_PROXY` is unset, empty, or a URL whose host is not local; and a
local host of the other variables does not come with port 0. -/
def Fits (lib : Library) (env : Environment) : Prop :=
  match env.guestProxy with
  | some value => value = [] ∨ ∃ url, urlsplit lib value = .ok url ∧ isLocal url = false
  | none => ∀ url, urlsplit lib (exportValue env) = .ok url → isLocal url = true →
      url.port ≠ .ok (some 0)

theorem exports_of_ne_nil {value : Text} (h : value ≠ []) :
    Exports (text "export http_proxy=" ++ quote value ++
      text "; export https_proxy=\"$http_proxy\"") (some value) :=
  .inr ⟨_, value, rfl, rfl, fun listing => quote_command listing h⟩

/-- `proxy_export` when there is a value. -/
theorem proxyExport_eq (lib : Library) {env : Environment} (h : exportValue env ≠ []) :
    proxyExport lib env = (throughGateway lib (exportValue env)).map fun value =>
      text "export http_proxy=" ++ quote value ++ text "; export https_proxy=\"$http_proxy\"" := by
  rw [proxyExport, if_neg h]
  cases throughGateway lib (exportValue env) <;> rfl

/-- An explicit proxy is handed on as it is, and exported as it is only if it is
a URL of another host. -/
theorem explicit_agrees_iff {lib : Library} {env : Environment} {value : Text}
    (henv : env.guestProxy = some value) (hne : value ≠ []) :
    Agrees lib env ↔ ∃ url, urlsplit lib value = .ok url ∧ isLocal url = false := by
  have hvalue : exportValue env = value := by simp [exportValue, henv]
  have hguest : guestProxy lib env = .ok value := by simp [guestProxy, henv]
  have hexport := proxyExport_eq lib (hvalue ▸ hne)
  rw [hvalue] at hexport
  simp only [Agrees, hguest, hexport]
  cases hsplit : urlsplit lib value with
  | error e =>
    have herror : throughGateway lib value = .error e := by
      simp only [throughGateway, hsplit, bind, Except.bind]
    simp [herror, Except.map]
  | ok url =>
    obtain ⟨hparts, hother, hbad, hgood⟩ := throughGateway_cases hsplit
    cases hlocal : isLocal url with
    | false =>
      simp only [hother hlocal, Except.map, if_neg hne]
      exact ⟨fun _ => ⟨url, rfl, hlocal⟩, fun _ => exports_of_ne_nil hne⟩
    | true =>
      have hfalse : ¬ ∃ u, (.ok url : Except ValueError Parts) = .ok u ∧ isLocal u = false := by
        rintro ⟨u, hu, hfalse⟩
        cases hu
        rw [hlocal] at hfalse
        cases hfalse
      refine ⟨fun h => ?_, fun h => absurd h hfalse⟩
      cases hport : url.port with
      | error e => simp [hbad hlocal e hport, Except.map] at h
      | ok port =>
        simp only [hgood hlocal port hport, Except.map, if_neg hne] at h
        subst hparts
        have hnew := replaced_ne hlocal port
        exact absurd (Option.some.inj ((exports_of_ne_nil hnew.2).unique h)) hnew.1

/-- Without an explicit proxy both functions do the same. -/
theorem implicit_agrees {lib : Library} {env : Environment} (henv : env.guestProxy = none) :
    Agrees lib env := by
  have hvalue : exportValue env = env.hostProxy.getD [] := by simp [exportValue, henv]
  by_cases hne : exportValue env = []
  · have hguest : guestProxy lib env = .ok [] := by
      simp only [guestProxy, henv, ← hvalue, hne, if_true]
    have hexport : proxyExport lib env = .ok (text "true") := by rw [proxyExport, if_pos hne]
    simp only [Agrees, hguest, hexport]
    exact .inl ⟨rfl, rfl⟩
  · have hguest : guestProxy lib env = throughGateway lib (exportValue env) := by
      simp only [guestProxy, henv, ← hvalue, if_neg hne]
    simp only [Agrees, hguest, proxyExport_eq lib hne]
    cases hsplit : urlsplit lib (exportValue env) with
    | error e =>
      have herror : throughGateway lib (exportValue env) = .error e := by
        simp only [throughGateway, hsplit, bind, Except.bind]
      simp [herror, Except.map]
    | ok url =>
      obtain ⟨hparts, hother, hbad, hgood⟩ := throughGateway_cases hsplit
      cases hlocal : isLocal url with
      | false =>
        simp only [hother hlocal, Except.map, if_neg hne]
        exact exports_of_ne_nil hne
      | true =>
        cases hport : url.port with
        | error e => simp [hbad hlocal e hport, Except.map]
        | ok port =>
          subst hparts
          have hnew := (replaced_ne hlocal port).2
          simp only [hgood hlocal port hport, Except.map, if_neg hnew]
          exact exports_of_ne_nil hnew

/-- The host alone changes exactly when the port is not 0. -/
theorem preserves_iff {lib : Library} {env : Environment} :
    Preserves lib env ↔ (exportValue env ≠ [] → ∀ url, urlsplit lib (exportValue env) = .ok url →
      isLocal url = true → url.port ≠ .ok (some 0)) := by
  constructor
  · intro h hne url hsplit hlocal hport
    obtain ⟨rfl, _, _, hgood⟩ := throughGateway_cases hsplit
    have honly := h hne hlocal _ (hgood hlocal _ hport)
    obtain ⟨hback, _, hhostPort⟩ :=
      replaced_parts (splitParts_sound (exportValue env)) hlocal (some 0)
    have hnewPort := port_of_hostPort hhostPort fun n hn => by
      cases hn
      decide
    have hsame := honly.port
    rw [hback, hnewPort, hport] at hsame
    cases hsame
  · intro h hne hlocal new hnew
    cases hsplit : urlsplit lib (exportValue env) with
    | error e =>
      simp [throughGateway, hsplit, bind, Except.bind] at hnew
    | ok url =>
      obtain ⟨rfl, _, hbad, hgood⟩ := throughGateway_cases hsplit
      cases hport : (splitParts (exportValue env)).port with
      | error e =>
        rw [hbad hlocal e hport] at hnew
        cases hnew
      | ok port =>
        rw [hgood hlocal port hport] at hnew
        cases hnew
        apply replaced_onlyHost hlocal hport
        rintro rfl
        exact h hne _ hsplit hlocal hport

/-- The two functions agree and change the host only, for every environment that
fits and for no other. -/
theorem proxies_agree_iff (lib : Library) (env : Environment) :
    Agrees lib env ∧ Preserves lib env ↔ Fits lib env := by
  rw [preserves_iff]
  cases henv : env.guestProxy with
  | none =>
    simp only [Fits, henv]
    constructor
    · rintro ⟨_, h⟩ url hsplit hlocal
      apply h _ url hsplit hlocal
      intro hnil
      obtain ⟨rfl, _⟩ := throughGateway_cases hsplit
      rw [hnil] at hlocal
      revert hlocal
      decide
    · intro h
      exact ⟨implicit_agrees henv, fun _ => h⟩
  | some value =>
    have hvalue : exportValue env = value := by simp [exportValue, henv]
    simp only [Fits, henv, hvalue]
    by_cases hne : value = []
    · have hguest : guestProxy lib env = .ok [] := by simp [guestProxy, henv, hne]
      have hexport : proxyExport lib env = .ok (text "true") := by
        rw [proxyExport, if_pos (hvalue.trans hne)]
      refine ⟨fun _ => .inl hne, fun _ => ⟨?_, fun h => absurd hne h⟩⟩
      simp only [Agrees, hguest, hexport]
      exact .inl ⟨rfl, rfl⟩
    · rw [explicit_agrees_iff henv hne]
      constructor
      · rintro ⟨h, _⟩
        exact .inr h
      · rintro (h | ⟨url, hsplit, hlocal⟩)
        · exact absurd h hne
        · refine ⟨⟨url, hsplit, hlocal⟩, ?_⟩
          intro _ u hu htrue
          cases hsplit.symm.trans hu
          rw [hlocal] at htrue
          cases htrue

def plainLibrary : Library := ⟨id, fun _ => true⟩

/-- The guest is handed its own loopback interface while the gateway is
exported, and port 0 is lost. -/
theorem proxies_disagree :
    (guestProxy plainLibrary ⟨some (text "http://localhost:3128"), none, none⟩ =
        .ok (text "http://localhost:3128") ∧
      proxyExport plainLibrary ⟨some (text "http://localhost:3128"), none, none⟩ =
        .ok (text "export http_proxy=http://10.0.2.2:3128; export https_proxy=\"$http_proxy\"") ∧
      guestProxy plainLibrary ⟨none, some (text "http://localhost:0/"), none⟩ =
        .ok (text "http://10.0.2.2/")) ∧
    ¬ Agrees plainLibrary ⟨some (text "http://localhost:3128"), none, none⟩ ∧
    ¬ Preserves plainLibrary ⟨none, some (text "http://localhost:0/"), none⟩ := by
  refine ⟨by decide +kernel, ?_, ?_⟩
  · rw [explicit_agrees_iff rfl (by decide)]
    rintro ⟨url, hurl, hlocal⟩
    obtain ⟨rfl, _⟩ := throughGateway_cases hurl
    revert hlocal
    decide +kernel
  · rw [preserves_iff]
    intro h
    apply h (by decide) (splitParts (text "http://localhost:0/"))
    · decide +kernel
    · decide +kernel
    · decide +kernel

end LinuxBuild.Proxy
