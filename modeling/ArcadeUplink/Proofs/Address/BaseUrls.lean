import ArcadeUplink.Address.Server
import ArcadeUplink.Proofs.Address.Hosts
import Mathlib.Data.List.TakeWhile

/-!
# Base URLs are normal forms

Of a URL the scheme and what names the server are read, and nothing else (`parse?_eq_some_iff`):
the user in front of the last at sign and what follows the first slash, question mark or number
sign are dropped. The base URL of a server has none of them (`url_chars`), so the same server is
read again from it (`parse?_baseUrl`). Every host name, whether it is understood or not, resolves
to such a base URL, which resolves to itself (`resolve_resolved`).
-/

namespace ArcadeUplink.Address

theorem Scheme.ofChars?_name (s : Scheme) : Scheme.ofChars? s.name.toList = some s := by
  cases s <;> decide

theorem Scheme.isAllowed_of_mem_name {s : Scheme} {c : Char} (h : c ∈ s.name.toList) :
    Domain.isAllowed c = true := by
  have hall : s.name.toList.all Domain.isAllowed = true := by cases s <;> decide
  exact List.all_eq_true.mp hall c h

namespace Server

variable {name user server tail cs rest : List Char} {c : Char} {s : Server} {t : String}

/-! ## The parts of a URL -/

/-- **The parts of a URL**: a scheme, a user with an at sign behind him, what names the server, and
what follows it. Of them all but the scheme may be missing. -/
structure Url (name user server tail cs : List Char) : Prop where
  /-- Between the scheme and the others stand slashes of either kind, and all that there are. -/
  text : ∃ slashes, (∀ c ∈ slashes, isSlash c = true) ∧
    cs = name ++ ':' :: (slashes ++ (user ++ (server ++ tail)))
  name : ':' ∉ name
  slashes : ∀ c ∈ (user ++ (server ++ tail)).head?, isSlash c = false
  user : (∀ c ∈ user, endsAuthority c = false) ∧ ∀ c ∈ user.getLast?, c = '@'
  server : ∀ c ∈ server, endsAuthority c = false ∧ c ≠ '@'
  tail : ∀ c ∈ tail.head?, endsAuthority c = true

theorem splitScheme?_append (h : ':' ∉ name) :
    splitScheme? (name ++ ':' :: rest) = (Scheme.ofChars? name).map (·, rest) := by
  have hname : ∀ c ∈ name, decide (c ≠ ':') = true := fun c hc =>
    decide_eq_true fun hcolon => h (hcolon ▸ hc)
  rw [splitScheme?, List.dropWhile_append_of_pos hname, List.takeWhile_append_of_pos hname]
  simp

theorem dropUser_append (huser : ∀ c ∈ user.getLast?, c = '@') (hserver : '@' ∉ server) :
    dropUser (user ++ server) = server := by
  have hfront : ∀ c ∈ server.reverse, decide (c ≠ '@') = true := fun c hc =>
    decide_eq_true fun hat => hserver (hat ▸ List.mem_reverse.mp hc)
  have hback : ∀ c ∈ user.reverse.head?, decide (c ≠ '@') = false := by
    intro c hc
    rw [List.head?_reverse] at hc
    simp [huser c hc]
  rw [dropUser, List.reverse_append, List.takeWhile_append_of_pos hfront,
    Text.takeWhile_eq_nil hback, List.append_nil, List.reverse_reverse]

theorem dropUser_eq_self (h : '@' ∉ server) : dropUser server = server := by
  have hnobody : dropUser ([] ++ server) = server := dropUser_append nofun h
  exact hnobody

theorem ofAuthority?_append (scheme : Scheme) (huser : ∀ c ∈ user.getLast?, c = '@')
    (hserver : '@' ∉ server) :
    ofAuthority? scheme (user ++ server) = ofAuthority? scheme server := by
  rw [ofAuthority?, ofAuthority?, dropUser_append huser hserver, dropUser_eq_self hserver]

/-- **The scheme and what names the server count**, the other parts do not. -/
theorem Url.parseChars? (h : Url name user server tail (clean cs)) :
    Server.parseChars? cs = (Scheme.ofChars? name).bind (ofAuthority? · server) := by
  obtain ⟨slashes, hslashes, htext⟩ := h.text
  have huser : ∀ c ∈ user, (!endsAuthority c) = true := by
    intro c hc
    simp [h.user.1 c hc]
  have hserver : ∀ c ∈ server, (!endsAuthority c) = true := by
    intro c hc
    simp [(h.server c hc).1]
  have htail : ∀ c ∈ tail.head?, (!endsAuthority c) = false := by
    intro c hc
    simp [h.tail c hc]
  have hauthority : (user ++ (server ++ tail)).takeWhile (fun c => !endsAuthority c) =
      user ++ server := by
    rw [List.takeWhile_append_of_pos huser, List.takeWhile_append_of_pos hserver,
      Text.takeWhile_eq_nil htail, List.append_nil]
  have hat : '@' ∉ server := fun hmem => (h.server _ hmem).2 rfl
  rw [Server.parseChars?, htext, splitScheme?_append h.name]
  cases Scheme.ofChars? name with
  | none => rfl
  | some scheme =>
    show ofAuthority? scheme _ = ofAuthority? scheme server
    rw [List.dropWhile_append_of_pos hslashes, Text.dropWhile_eq_self h.slashes, hauthority,
      ofAuthority?_append scheme h.user.2 hat]

theorem exists_user (cs : List Char) : ∃ user server, cs = user ++ server ∧
    (∀ c ∈ user.getLast?, c = '@') ∧ '@' ∉ server := by
  by_cases h : '@' ∈ cs
  · obtain ⟨back, front, hreverse, hback⟩ := List.eq_append_cons_of_mem (List.mem_reverse.mpr h)
    refine ⟨front.reverse ++ ['@'], back.reverse, ?_, ?_, mt List.mem_reverse.mp hback⟩
    · rw [← List.reverse_reverse cs, hreverse]
      simp
    · simp
  · exact ⟨[], cs, rfl, nofun, h⟩

/-- Every text with a colon has these parts. -/
theorem exists_url (h : ':' ∈ cs) : ∃ name user server tail, Url name user server tail cs := by
  obtain ⟨name, rest, rfl, hname⟩ := List.eq_append_cons_of_mem h
  obtain ⟨user, server, hauthority, huser, hserver⟩ :=
    exists_user ((rest.dropWhile isSlash).takeWhile fun c => !endsAuthority c)
  have hends : ∀ c ∈ user ++ server, endsAuthority c = false := by
    intro c hc
    rw [← hauthority] at hc
    simpa using List.all_eq_true.mp List.all_takeWhile c hc
  have hrest : user ++ (server ++ (rest.dropWhile isSlash).dropWhile fun c => !endsAuthority c) =
      rest.dropWhile isSlash := by
    rw [← List.append_assoc, ← hauthority, List.takeWhile_append_dropWhile]
  refine ⟨name, user, server, (rest.dropWhile isSlash).dropWhile fun c => !endsAuthority c, ?_⟩
  constructor
  case text =>
    refine ⟨rest.takeWhile isSlash, List.all_eq_true.mp List.all_takeWhile, ?_⟩
    rw [hrest, List.takeWhile_append_dropWhile]
  case name => exact hname
  case slashes =>
    rw [hrest]
    exact Text.head?_dropWhile _ _
  case user => exact ⟨fun c hc => hends c (List.mem_append_left _ hc), huser⟩
  case server =>
    exact fun c hc => ⟨hends c (List.mem_append_right _ hc), fun hat => hserver (hat ▸ hc)⟩
  case tail =>
    intro c hc
    simpa using Text.head?_dropWhile _ _ c hc

/-- **What is read of a URL.** -/
theorem parse?_eq_some_iff : parse? t = some s ↔ ∃ name user server tail scheme,
    Url name user server tail (clean t.toList) ∧ Scheme.ofChars? name = some scheme ∧
      ofAuthority? scheme server = some s := by
  constructor
  · intro h
    have hcolon : ':' ∈ clean t.toList := by
      refine Decidable.byContradiction fun hnone => ?_
      have hend : (clean t.toList).dropWhile (· ≠ ':') = [] :=
        List.dropWhile_eq_nil_iff.mpr fun c hc => decide_eq_true fun hc' => hnone (hc' ▸ hc)
      rw [parse?, parseChars?, splitScheme?, hend] at h
      cases h
    obtain ⟨name, user, server, tail, hurl⟩ := exists_url hcolon
    rw [parse?, hurl.parseChars?] at h
    obtain ⟨scheme, hscheme, hserver⟩ := Option.bind_eq_some_iff.mp h
    exact ⟨name, user, server, tail, scheme, hurl, hscheme, hserver⟩
  · rintro ⟨name, user, server, tail, scheme, hurl, hscheme, hserver⟩
    rw [parse?, hurl.parseChars?, hscheme, Option.bind_some, hserver]

example : (parse? "HTTPS://u:p@0x7f.1:443\\a?b#c").map baseUrl = some "https://127.0.0.1:443" := by
  decide +kernel

/-! ## The characters of a base URL -/

/-- What names the server in a base URL. -/
def authority (s : Server) : List Char := s.host.chars ++ ':' :: Decimal.natChars s.port.toNat

theorem chars_eq (s : Server) :
    s.chars = s.scheme.name.toList ++ ':' :: ('/' :: '/' :: s.authority) := by
  simp [chars, authority]

theorem isAllowed_of_mem_natChars {n : Nat} (h : c ∈ Decimal.natChars n) :
    Domain.isAllowed c = true := by
  obtain ⟨d, hd, rfl⟩ := Ipv4.exists_of_mem_toDigits (by decide) h
  exact Domain.isAllowed_digitChar ⟨d, by omega⟩

theorem mem_authority (h : c ∈ s.authority) :
    Domain.isAllowed c = true ∨ c ∈ [':', '[', ']'] := by
  rcases List.mem_append.mp h with h | h
  · exact Host.allowed_or_of_mem_chars h
  · rcases List.mem_cons.mp h with rfl | h
    · exact .inr List.mem_cons_self
    · exact .inl (isAllowed_of_mem_natChars h)

theorem mem_chars (h : c ∈ s.chars) :
    Domain.isAllowed c = true ∨ c ∈ [':', '[', ']'] ∨ c = '/' := by
  rw [chars_eq] at h
  simp only [List.mem_append, List.mem_cons] at h
  obtain h | rfl | rfl | rfl | h := h
  · exact .inl (Scheme.isAllowed_of_mem_name h)
  · exact .inr (.inl List.mem_cons_self)
  · exact .inr (.inr rfl)
  · exact .inr (.inr rfl)
  · exact (mem_authority h).imp_right .inl

theorem plain_ascii : ∀ n : Fin 128, Domain.isAllowed (Char.ofNat n) = true →
    endsAuthority (Char.ofNat n) = false ∧ Char.ofNat n ≠ '@' ∧ isEnd (Char.ofNat n) = false ∧
      isBreak (Char.ofNat n) = false ∧ Text.isBlank (Char.ofNat n) = false := by
  decide +kernel

/-- What a name may hold stands for itself in a URL. -/
theorem plain_of_isAllowed (h : Domain.isAllowed c = true) :
    endsAuthority c = false ∧ c ≠ '@' ∧ isEnd c = false ∧ isBreak c = false ∧
      Text.isBlank c = false := by
  obtain ⟨n, rfl⟩ := Text.exists_ascii (Domain.ascii_of_isAllowed h)
  exact plain_ascii n h

theorem plain_of_mem_authority (h : c ∈ s.authority) : endsAuthority c = false ∧ c ≠ '@' := by
  rcases mem_authority h with h | h
  · exact ⟨(plain_of_isAllowed h).1, (plain_of_isAllowed h).2.1⟩
  · simp only [List.mem_cons, List.not_mem_nil, or_false] at h
    obtain rfl | rfl | rfl := h <;> decide

theorem not_blank_of_mem_chars (h : c ∈ s.chars) :
    isEnd c = false ∧ isBreak c = false ∧ Text.isBlank c = false := by
  rcases mem_chars h with h | h
  · exact (plain_of_isAllowed h).2.2
  · simp only [List.mem_cons, List.not_mem_nil, or_false] at h
    obtain (rfl | rfl | rfl) | rfl := h <;> decide

theorem clean_chars (s : Server) : clean s.chars = s.chars := by
  have hstrip : ((s.chars.dropWhile isEnd).reverse.dropWhile isEnd).reverse = s.chars :=
    Text.strip_eq_self (fun c hc => (not_blank_of_mem_chars (List.mem_of_mem_head? hc)).1)
      fun c hc => (not_blank_of_mem_chars (List.mem_of_mem_getLast? hc)).1
  rw [clean, hstrip, List.filter_eq_self]
  intro c hc
  simp [(not_blank_of_mem_chars hc).2.1]

/-- **A base URL is made of scheme, host and port**: it has no user, and nothing follows. -/
theorem url_chars (s : Server) : Url s.scheme.name.toList [] s.authority [] s.chars where
  text := ⟨['/', '/'], by simp [isSlash], by simp [chars_eq]⟩
  name h := by
    have hcolon : Domain.isAllowed ':' = true := Scheme.isAllowed_of_mem_name h
    cases hcolon
  slashes c hc := by
    have hmem : c ∈ s.authority := by simpa using List.mem_of_mem_head? hc
    have hends := (plain_of_mem_authority hmem).1
    simp only [endsAuthority, Bool.or_eq_false_iff] at hends
    exact hends.1.1
  user := ⟨nofun, nofun⟩
  server _ hc := plain_of_mem_authority hc
  tail := nofun

/-! ## Reading it again -/

theorem splitPort_append (h : ∀ c ∈ cs, c ≠ ':' ∧ c ≠ '[') :
    splitPort false (cs ++ ':' :: rest) = (cs, some rest) := by
  induction cs with
  | nil => rfl
  | cons c cs ih =>
    obtain ⟨hcolon, hbracket⟩ := h c List.mem_cons_self
    have hrest := ih fun d hd => h d (List.mem_cons_of_mem _ hd)
    simp [splitPort, hcolon, hbracket, hrest]

theorem splitPort_brackets (h : ']' ∉ cs) :
    splitPort true (cs ++ ']' :: ':' :: rest) = (cs ++ [']'], some rest) := by
  induction cs with
  | nil => rfl
  | cons c cs ih =>
    obtain ⟨hc, hcs⟩ := not_or.mp (mt List.mem_cons.mpr h)
    simp [splitPort, Ne.symm hc, ih hcs]

/-- **The port is what follows the host**, with or without colons in it. -/
theorem splitPort_host (h : Host) (rest : List Char) :
    splitPort false (h.chars ++ ':' :: rest) = (h.chars, some rest) := by
  have hplain (hallowed : ∀ c ∈ h.chars, Domain.isAllowed c = true) :
      splitPort false (h.chars ++ ':' :: rest) = (h.chars, some rest) :=
    splitPort_append fun c hc => ⟨Domain.ne_of_isAllowed (hallowed c hc) (by decide),
      Domain.ne_of_isAllowed (hallowed c hc) (by decide)⟩
  cases h with
  | ipv4 i => exact hplain fun _ => Domain.isAllowed_of_mem_ipv4
  | ipv6 a =>
    have hbracket : ']' ∉ a.chars := by
      intro hmem
      obtain ⟨d, hd, heq⟩ | heq := Ipv6.digit_or_colon_of_mem_chars hmem
      · have hallowed := Domain.isAllowed_digitChar ⟨d, hd⟩
        rw [← heq] at hallowed
        cases hallowed
      · cases heq
    simp [Host.chars, splitPort, splitPort_brackets hbracket]
  | domain d => exact hplain (Domain.allowed_of_isNormal d.isNormal_chars)

theorem port?_natChars (default p : UInt16) :
    port? default (Decimal.natChars p.toNat) = some p := by
  have hspan : Decimal.spanDigits (Decimal.natChars p.toNat) = (Decimal.natChars p.toNat, []) := by
    have hall : ∀ c ∈ Decimal.natChars p.toNat, c.isDigit = true :=
      fun _ => Decimal.isDigit_of_mem_natChars
    have hspan : Decimal.spanDigits (Decimal.natChars p.toNat ++ []) = _ :=
      Decimal.spanDigits_append hall trivial
    rwa [List.append_nil] at hspan
  obtain ⟨d, ds, hdigits, -⟩ := Decimal.natChars_eq_cons p.toNat
  have hvalue := Decimal.ofDigits_natChars p.toNat
  rw [hdigits] at hspan hvalue ⊢
  rw [port?, hspan]
  simp [hvalue, p.toNat_lt]

theorem ofAuthority?_authority (s : Server) : ofAuthority? s.scheme s.authority = some s := by
  have hat : '@' ∉ s.authority := fun h => (plain_of_mem_authority h).2 rfl
  rw [ofAuthority?, dropUser_eq_self hat, authority, splitPort_host]
  dsimp only
  rw [Host.parse?_chars, Option.getD_some, port?_natChars]

/-- **A server is read back** from its base URL. -/
theorem parse?_baseUrl (s : Server) : parse? s.baseUrl = some s := by
  have hurl := url_chars s
  rw [← clean_chars] at hurl
  rw [parse?, baseUrl, String.toList_ofList, hurl.parseChars?, Scheme.ofChars?_name,
    Option.bind_some, ofAuthority?_authority]

/-! ## Host names -/

theorem resolve_baseUrl (s : Server) : resolve s.baseUrl = .known s.baseUrl := by
  have htrim : Text.trim s.baseUrl = s.baseUrl := by
    rw [Text.trim, baseUrl, String.toList_ofList,
      Text.trimChars_eq_self fun c hc => (not_blank_of_mem_chars hc).2.2]
  have hcolon : ':' ∈ s.baseUrl.toList := by simp [baseUrl, chars_eq]
  have hne {name : String} (h : ':' ∉ name.toList) : s.baseUrl ≠ name :=
    fun heq => h (heq ▸ hcolon)
  unfold resolve
  rw [htrim, if_neg (not_or.mpr ⟨hne (by decide), hne (by decide)⟩), if_neg (hne (by decide)),
    parse?_baseUrl]

/-- A server that is reached in the usual way. -/
def secure (name : List Char) (h : Domain.isNormal name = true) : Server :=
  ⟨.https, .domain ⟨name, h⟩, 443⟩

/-- **Every host name resolves to a server.** -/
theorem exists_of_resolve (hostname : String) :
    ∃ s : Server, (resolve hostname).url = s.baseUrl := by
  have hproduction : ∃ s : Server, productionUrl = s.baseUrl :=
    ⟨secure "api.scorbit.io".toList (by decide +kernel), by decide +kernel⟩
  have hstaging : ∃ s : Server, stagingUrl = s.baseUrl :=
    ⟨secure "staging.scorbit.io".toList (by decide +kernel), by decide +kernel⟩
  unfold resolve
  dsimp only
  split
  · exact hproduction
  · split
    · exact hstaging
    · cases parse? (Text.trim hostname) with
      | some s => exact ⟨s, rfl⟩
      | none => exact hproduction

theorem resolve_resolved (hostname : String) :
    resolve (resolve hostname).url = .known (resolve hostname).url := by
  obtain ⟨s, hs⟩ := exists_of_resolve hostname
  rw [hs, resolve_baseUrl]

/-! ## The law -/

/-- **A base URL is a normal form**, whatever text it comes from. -/
structure Normal (t : String) : Prop where
  /-- Servers are reached by four schemes. -/
  scheme : ∀ s, parse? t = some s → s.scheme.name ∈ ["http", "https", "ws", "wss"]
  /-- Of a URL the scheme and what names the server are read: no user in front of it, and no path,
  query or fragment behind it. -/
  read : ∀ s, parse? t = some s ↔ ∃ name user server tail scheme,
    Url name user server tail (clean t.toList) ∧ Scheme.ofChars? name = some scheme ∧
      ofAuthority? scheme server = some s
  /-- The base URL has no such parts: it is scheme, host and port. -/
  bare : ∀ s, parse? t = some s → s.baseUrl.toList =
    s.scheme.name.toList ++ "://".toList ++ s.host.chars ++ ":".toList ++
      Decimal.natChars s.port.toNat ∧
    Url s.scheme.name.toList [] (s.host.chars ++ ':' :: Decimal.natChars s.port.toNat) []
      s.baseUrl.toList
  /-- The same scheme, host and port are read from it again. -/
  again : ∀ s, parse? t = some s → parse? s.baseUrl = some s
  /-- As a host name the text resolves to a URL that resolves to itself, be it understood or not. -/
  resolved : resolve (resolve t).url = .known (resolve t).url

theorem base_url_normal (t : String) : Normal t where
  scheme s _ := by
    cases s.scheme <;> decide
  read _ := parse?_eq_some_iff
  bare s _ := by
    refine ⟨?_, ?_⟩
    · rw [baseUrl, String.toList_ofList, chars]
      simp
    · rw [baseUrl, String.toList_ofList]
      exact url_chars s
  again s _ := parse?_baseUrl s
  resolved := resolve_resolved t

end Server

end ArcadeUplink.Address
