/-
# Canonical addresses of the coordinator

An address that has been normalized is canonical where normalizing it once more changes nothing.
What is kept of an address is read again as it was read, unless nothing but userinfo stands
before the port, a closing bracket is in an address that lacks its own, or a blank that was
inside comes to stand at the end. And an address with another scheme is not taken apart at all.
-/

import HiveBear.Core.Endpoint

namespace HiveBear.Endpoint

open Texts

/-! ## What is kept is kept again -/

theorem stripStart_portSuffix (port : Option ℕ) :
    stripStart [':'] (portSuffix port) = port.map fun port => port.repr.toList := by
  cases port with
  | none => rfl
  | some port => exact if_pos (List.prefix_append [':'] _)

/-- A host that is kept is of the form that it has been read in, unless a bracket is in an address
that lacks its own. -/
theorem HostForm.kept {text host : List Char} {port : Option (List Char)}
    (form : HostForm text host port)
    (hbare : splitBrackets text = none → 1 < text.count ':' → ']' ∉ text) :
    HostForm (host ++ portSuffix (usablePort port)) host
      ((usablePort port).map fun port => port.repr.toList) := by
  cases form with
  | @bracketed literal rest closed =>
      rw [← stripStart_portSuffix, List.append_assoc, List.singleton_append]
      exact .bracketed _ closed
  | bare hopen hcolons =>
      rw [show usablePort none = none from rfl, Option.map_none, portSuffix, List.append_nil]
      exact .bracketed [] (hbare hopen hcolons)
  | plain hopen hcolon =>
      rw [show usablePort none = none from rfl, Option.map_none, portSuffix, List.append_nil]
      exact .plain hopen hcolon
  | @withPort host port hopen hhost hport =>
      have hunclosed {rest : List Char} (hrest : host = '[' :: rest) : ']' ∉ rest := fun hclosed =>
        splitBrackets_eq_none_iff.mp hopen _ (congrArg (· ++ ':' :: port) hrest)
          (List.mem_append_left _ hclosed)
      cases usablePort (some port) with
      | none =>
          rw [portSuffix, List.append_nil]
          exact .plain (splitBrackets_eq_none_iff.mpr fun rest hrest => hunclosed hrest) hhost
      | some number =>
          refine .withPort ?_ hhost (notMem_repr rfl number)
          rw [splitBrackets_eq_none_iff]
          intro rest hrest hclosed
          cases host with
          | nil => cases hrest
          | cons first host =>
              obtain ⟨rfl, rfl⟩ := List.cons.inj hrest
              rcases List.mem_append.mp hclosed with hinside | hbehind
              · exact hunclosed rfl hinside
              · rcases List.mem_cons.mp hbehind with hcolon | hdigit
                · exact absurd hcolon (by decide)
                · exact notMem_repr rfl number hdigit

namespace Address

/-- A text has its parts in one way. -/
theorem text_inj {address other : Address} (h : address.text = other.text) :
    address.userinfo = other.userinfo ∧ address.hostPort = other.hostPort ∧
      address.tail = other.tail := by
  have hscheme := congrArg splitScheme h
  rw [splitScheme_text, splitScheme_text] at hscheme
  have hauthority := congrArg splitAuthority (Prod.mk.inj hscheme).2
  rw [splitAuthority_rest, splitAuthority_rest] at hauthority
  obtain ⟨huserHost, htail⟩ := Prod.mk.inj hauthority
  have huser := congrArg splitUserinfo huserHost
  rw [splitUserinfo_authority, splitUserinfo_authority] at huser
  exact ⟨(Prod.mk.inj huser).1, (Prod.mk.inj huser).2, htail⟩

variable (address : Address) {host : List Char} {port : Option (List Char)}

theorem kept_kept_text (form : HostForm address.hostPort host port)
    (again : HostForm (address.kept form).hostPort host
      ((usablePort port).map fun port => port.repr.toList)) :
    ((address.kept form).kept again).text = (address.kept form).text := by
  rw [text, text, rest, rest]
  simp only [kept, usablePort_repr, normalizePath_normalizePath]

end Address

/-! ## Blanks -/

/-- The text does not end in a blank. -/
def EndsDark (text : List Char) : Prop := ∀ c ∈ text.getLast?, isRustSpace c = false

instance : DecidablePred EndsDark := fun text =>
  decidable_of_iff (text.getLast?.all fun c => !isRustSpace c) <| by
    simp [EndsDark, Option.all_eq_true]

theorem endsDark_append {back : List Char} (h : back ≠ []) (front : List Char) :
    EndsDark (front ++ back) ↔ EndsDark back := by
  obtain ⟨early, c, rfl⟩ := List.eq_nil_or_concat back |>.resolve_left h
  rw [EndsDark, EndsDark, List.concat_eq_append, ← List.append_assoc, List.getLast?_concat,
    List.getLast?_concat]

theorem EndsDark.rdropWhile_eq {text : List Char} (h : EndsDark text) :
    text.rdropWhile isRustSpace = text := by
  rw [List.rdropWhile_eq_self_iff]
  intro hne hspace
  rw [h _ (List.getLast?_eq_some_getLast hne)] at hspace
  cases hspace

theorem length_rdropWhile_lt {text : List Char} (h : ¬ EndsDark text) :
    (text.rdropWhile isRustSpace).length < text.length := by
  refine lt_of_le_of_ne (List.rdropWhile_prefix _ _).length_le fun hlength => h ?_
  have hself := (List.rdropWhile_prefix isRustSpace text).eq_of_length hlength
  intro c hc
  obtain ⟨hne, rfl⟩ := List.mem_getLast?_eq_getLast hc
  exact Bool.eq_false_iff.mpr (List.rdropWhile_eq_self_iff.mp hself hne)

theorem isRustSpace_of_isDelimiter {c : Char} (h : isDelimiter c = true) :
    isRustSpace c = false := by
  have hcases : c = '/' ∨ c = '?' ∨ c = '#' := by simpa [isDelimiter, or_assoc] using h
  rcases hcases with rfl | rfl | rfl <;> decide

theorem isRustSpace_of_isDigit {c : Char} (h : c.isDigit = true) : isRustSpace c = false := by
  have hrange : 48 ≤ c.toNat ∧ c.toNat ≤ 57 := by
    simpa [Char.isDigit, UInt32.le_iff_toNat_le] using h
  simp [isRustSpace]
  omega

/-- A port that is kept ends in a digit. -/
theorem endsDark_portSuffix (port : Option ℕ) : EndsDark (portSuffix port) := by
  intro c hc
  rcases mem_portSuffix (List.mem_of_getLast? hc) with rfl | hdigit
  · decide
  · exact isRustSpace_of_isDigit hdigit

/-- What is kept of a host and its port does not end in a blank, unless it is no longer than what
it is read in. -/
theorem HostForm.endsDark_or_le {text host : List Char} {port : Option (List Char)}
    (form : HostForm text host port) :
    EndsDark (host ++ portSuffix (usablePort port)) ∨
      (host ++ portSuffix (usablePort port)).length ≤ text.length := by
  by_cases hsuffix : portSuffix (usablePort port) = []
  · rw [hsuffix, List.append_nil]
    cases form with
    | bracketed rest closed =>
        exact Or.inl ((endsDark_append (List.cons_ne_nil _ _) _).mpr (by decide))
    | bare hopen hcolons =>
        exact Or.inl ((endsDark_append (List.cons_ne_nil _ _) _).mpr (by decide))
    | plain hopen hcolon => exact Or.inr le_rfl
    | withPort hopen hhost hport =>
        refine Or.inr ?_
        rw [List.length_append]
        exact Nat.le_add_right _ _
  · exact Or.inl ((endsDark_append hsuffix host).mpr (endsDark_portSuffix _))

namespace Address

variable (address : Address)

theorem text_ne_nil : address.text ≠ [] := by
  rw [text]
  simp

/-- An address begins with a letter. -/
theorem trim_text : trim address.text = address.text.rdropWhile isRustSpace := by
  have hletter : address.text.dropWhile isRustSpace = address.text := by
    rw [text]
    rcases address.scheme_http with h | h <;> rw [h] <;> rfl
  rw [trim, hletter]

theorem trim_text_of_endsDark (h : EndsDark address.text) : trim address.text = address.text := by
  rw [trim_text, h.rdropWhile_eq]

/-- Blanks are cut off the tail, where there is one. -/
def cutTail : Address where
  scheme := address.scheme
  userinfo := address.userinfo
  hostPort := address.hostPort
  tail := address.tail.rdropWhile isRustSpace
  scheme_http := address.scheme_http
  userinfo_at := address.userinfo_at
  hostPort_at := address.hostPort_at
  undelimited := address.undelimited
  tail_delimiter := delimiter_of_prefix (List.rdropWhile_prefix _ _) address.tail_delimiter

/-- And else off the host. -/
def cutHost : Address where
  scheme := address.scheme
  userinfo := address.userinfo
  hostPort := address.hostPort.rdropWhile isRustSpace
  tail := address.tail
  scheme_http := address.scheme_http
  userinfo_at := address.userinfo_at
  hostPort_at hat := address.hostPort_at ((List.rdropWhile_prefix _ _).mem hat)
  undelimited c hc := address.undelimited c (List.mem_append.mpr
    ((List.mem_append.mp hc).imp id fun hhost => (List.rdropWhile_prefix _ _).mem hhost))
  tail_delimiter := address.tail_delimiter

theorem trim_text_cutTail (h : address.tail ≠ []) : trim address.text = address.cutTail.text := by
  obtain ⟨first, tail, htail⟩ := List.exists_cons_of_ne_nil h
  have hfirst : isRustSpace first = false :=
    isRustSpace_of_isDelimiter (address.tail_delimiter first (by rw [htail]; rfl))
  have hcut := rdropWhile_append hfirst (address.scheme ++ "://".toList ++ (address.userinfo ++
    address.hostPort)) tail
  have hcutTail := rdropWhile_append hfirst [] tail
  simp only [List.append_assoc, List.singleton_append, List.nil_append] at hcut hcutTail
  rw [trim_text, text, text, rest, rest]
  simp only [cutTail, htail, hcutTail, List.append_assoc]
  exact hcut

/-- In front of the host is a slash or an at sign. -/
theorem exists_before_host :
    ∃ front c, address.scheme ++ "://".toList ++ address.userinfo = front ++ [c] ∧
      isRustSpace c = false := by
  rcases address.userinfo_at with h | ⟨user, h⟩
  · refine ⟨address.scheme ++ ":/".toList, '/', ?_, by decide⟩
    rw [h, List.append_nil, List.append_assoc]
    rfl
  · refine ⟨address.scheme ++ "://".toList ++ user, '@', ?_, by decide⟩
    rw [h, List.append_assoc (address.scheme ++ "://".toList)]

theorem text_eq : address.text =
    (address.scheme ++ "://".toList ++ address.userinfo) ++ address.hostPort ++ address.tail := by
  rw [text, rest]
  simp only [List.append_assoc]

theorem trim_text_cutHost (h : address.tail = []) : trim address.text = address.cutHost.text := by
  obtain ⟨front, c, hfront, hc⟩ := address.exists_before_host
  have htail : address.cutHost.tail = [] := h
  rw [trim_text, text_eq, text_eq, h, htail, List.append_nil, List.append_nil, hfront,
    rdropWhile_append hc]
  exact congrArg (· ++ _) hfront.symm

/-- The last part of an address is its tail, if there is one. -/
theorem endsDark_text_of_tail (h : address.tail ≠ []) :
    EndsDark address.text ↔ EndsDark address.tail := by
  rw [text_eq]
  exact endsDark_append h _

/-- And else its host. -/
theorem endsDark_text_of_host (h : address.tail = []) :
    EndsDark address.text ↔ EndsDark address.hostPort := by
  rw [text_eq, h, List.append_nil]
  by_cases hhost : address.hostPort = []
  · obtain ⟨front, c, hfront, hc⟩ := address.exists_before_host
    rw [hhost, List.append_nil, hfront, endsDark_append (List.cons_ne_nil _ _)]
    simp [EndsDark, hc]
  · exact endsDark_append hhost _

end Address

/-! ## Addresses that stay as they are -/

theorem endsDark_default : EndsDark defaultCoordinatorUrl := by decide

section Fixed

variable {address : Address} {host : List Char} {port : Option (List Char)}

theorem normalize_of_ok {raw url : List Char} (h : resolve raw false = .ok url) :
    normalizeCoordinationServer raw = url := by
  rw [normalizeCoordinationServer, h]

/-- What becomes of an address that is trimmed to another one. -/
theorem normalize_cases {raw : List Char} (htrim : trim raw = address.text)
    (form : HostForm address.hostPort host port) :
    normalizeCoordinationServer raw = defaultCoordinatorUrl ∨
      normalizeCoordinationServer raw = (address.kept form).text := by
  have hsplit : splitScheme (trim raw) = (address.scheme, address.rest) := by
    rw [htrim, address.splitScheme_text]
  by_cases hhost : address.userinfo ++ host = []
  · exact Or.inl (normalize_of_ok (resolve_of_noHost hsplit form hhost).1)
  · refine Or.inr (normalize_of_ok (resolve_of_host ?_ hsplit form hhost nofun))
    rw [htrim]
    exact address.text_ne_nil

/-- An address that ends in a blank does not stay as it is: what its last part is read as is
shorter, or does not end in a blank. -/
theorem endsDark_of_normalize_eq (h : normalizeCoordinationServer address.text = address.text) :
    EndsDark address.text := by
  by_contra hblank
  have hkept {other : Address} (htrim : trim address.text = other.text) {host : List Char}
      {port : Option (List Char)} (form : HostForm other.hostPort host port) :
      address.text = (other.kept form).text := by
    rcases normalize_cases htrim form with hdefault | hkept
    · rw [← h, hdefault] at hblank
      exact absurd endsDark_default hblank
    · exact h.symm.trans hkept
  by_cases htail : address.tail = []
  · obtain ⟨host, port, form⟩ := exists_hostForm address.cutHost.hostPort
    obtain ⟨-, hhost, -⟩ := Address.text_inj (hkept (address.trim_text_cutHost htail) form)
    rw [address.endsDark_text_of_host htail] at hblank
    have hkeptHost : (address.cutHost.kept form).hostPort =
      host ++ portSuffix (usablePort port) := rfl
    have hshorter : address.cutHost.hostPort.length < address.hostPort.length :=
      length_rdropWhile_lt hblank
    rw [hkeptHost] at hhost
    rcases form.endsDark_or_le with hdark | hle
    · exact hblank (hhost ▸ hdark)
    · rw [← hhost] at hle
      omega
  · obtain ⟨host, port, form⟩ := exists_hostForm address.cutTail.hostPort
    obtain ⟨-, -, hpath⟩ := Address.text_inj (hkept (address.trim_text_cutTail htail) form)
    rw [address.endsDark_text_of_tail htail] at hblank
    have hshorter : address.cutTail.tail.length < address.tail.length :=
      length_rdropWhile_lt hblank
    have hle : (address.cutTail.kept form).tail.length ≤ address.cutTail.tail.length :=
      ((List.rdropWhile_prefix _ _).trans (List.takeWhile_prefix _)).length_le
    rw [← hpath] at hle
    omega

/-- What is kept is resolved to itself, strictly or not. -/
theorem resolve_kept (form : HostForm address.hostPort host port)
    (hhost : address.userinfo ++ host ≠ []) (hdark : EndsDark (address.kept form).text)
    (hbare : splitBrackets address.hostPort = none → 1 < address.hostPort.count ':' →
      ']' ∉ address.hostPort) (strict : Bool) :
    resolve (address.kept form).text strict = .ok (address.kept form).text := by
  have htrim := (address.kept form).trim_text_of_endsDark hdark
  have hsplit : splitScheme (trim (address.kept form).text) =
      ((address.kept form).scheme, (address.kept form).rest) := by
    rw [htrim, Address.splitScheme_text]
  have again : HostForm (address.kept form).hostPort host
      ((usablePort port).map fun port => port.repr.toList) := form.kept hbare
  rw [resolve_of_host (by rw [htrim]; exact Address.text_ne_nil _) hsplit again hhost,
    address.kept_kept_text form again]
  intro _ text htext
  obtain ⟨number, hnumber, -⟩ := Option.map_eq_some_iff.mp htext
  rw [usablePort_repr, hnumber]
  exact Or.inr rfl

theorem HostForm.eq_of_bare {text : List Char} (form : HostForm text host port)
    (hopen : splitBrackets text = none) (hcolons : 1 < text.count ':') :
    host = '[' :: text ++ [']'] ∧ port = none := by
  cases form with
  | bracketed rest closed =>
      rw [splitBrackets_append closed] at hopen
      cases hopen
  | bare => exact ⟨rfl, rfl⟩
  | plain _ hcolon =>
      rw [List.count_eq_zero.mpr hcolon] at hcolons
      omega
  | withPort _ hhost hport =>
      rw [List.count_append, List.count_cons_self, List.count_eq_zero.mpr hhost,
        List.count_eq_zero.mpr hport] at hcolons
      omega

/-- A bracket inside is taken for the one that has been added. -/
theorem not_closed_of_normalize_eq (form : HostForm address.hostPort host port)
    (h : normalizeCoordinationServer (address.kept form).text = (address.kept form).text)
    (hopen : splitBrackets address.hostPort = none) (hcolons : 1 < address.hostPort.count ':') :
    ']' ∉ address.hostPort := by
  intro hclosed
  obtain ⟨rfl, rfl⟩ := form.eq_of_bare hopen hcolons
  obtain ⟨literal, rest, hsplit, hliteral⟩ := List.eq_append_cons_of_mem hclosed
  have hkept : (address.kept form).hostPort = '[' :: literal ++ ']' :: (rest ++ [']']) := by
    show '[' :: address.hostPort ++ [']'] ++ [] = _
    rw [hsplit]
    simp
  have again : HostForm (address.kept form).hostPort ('[' :: literal ++ [']'])
      (stripStart [':'] (rest ++ [']'])) := by
    rw [hkept]
    exact .bracketed _ hliteral
  have htrim := (address.kept form).trim_text_of_endsDark (endsDark_of_normalize_eq h)
  have hnormalize := normalize_of_ok (@resolve_of_host (address.kept form).text _ _ _
    (by rw [htrim]; exact Address.text_ne_nil _) (by rw [htrim, Address.splitScheme_text]) again
    (by simp) _ nofun)
  obtain ⟨-, hhost, -⟩ := Address.text_inj (h.symm.trans hnormalize)
  have hsuffix : rest ++ [']'] = portSuffix (usablePort (stripStart [':'] (rest ++ [']']))) := by
    have hagain : '[' :: literal ++ ']' :: (rest ++ [']']) = '[' :: literal ++ [']'] ++
        portSuffix (usablePort (stripStart [':'] (rest ++ [']']))) := hkept.symm.trans hhost
    rw [List.append_assoc, List.singleton_append] at hagain
    exact (List.cons.inj (List.append_cancel_left hagain)).2
  have hmem : ']' ∈ rest ++ [']'] := List.mem_append_right _ (List.mem_singleton_self _)
  rw [hsuffix] at hmem
  rcases mem_portSuffix hmem with hcolon | hdigit
  · exact absurd hcolon (by decide)
  · exact absurd hdigit (by decide)

/-- **What is kept stays as it is** just if it does not end in a blank, and its host is read in it
again. -/
theorem normalize_kept_iff (form : HostForm address.hostPort host port)
    (hhost : address.userinfo ++ host ≠ []) :
    normalizeCoordinationServer (address.kept form).text = (address.kept form).text ↔
      EndsDark (address.kept form).text ∧
        (splitBrackets address.hostPort = none → 1 < address.hostPort.count ':' →
          ']' ∉ address.hostPort) := by
  constructor
  · intro h
    exact ⟨endsDark_of_normalize_eq h, not_closed_of_normalize_eq form h⟩
  · rintro ⟨hdark, hbare⟩
    exact normalize_of_ok (resolve_kept form hhost hdark hbare false)

end Fixed

/-! ## Canonical addresses -/

/-- What is behind the userinfo does not begin with the colon of a port. An address of the sixth
version is in brackets here. -/
def HasHost (url : List Char) : Prop :=
  let (authority, _) := splitAuthority (splitScheme url).2
  ∃ c rest, (splitUserinfo authority).2 = c :: rest ∧ c ≠ ':'

structure Canonical (url : List Char) : Prop where
  scheme : "http://".toList <+: url ∨ "https://".toList <+: url
  host : HasHost url
  noSlash : url.getLast? ≠ some '/'
  stays : normalizeCoordinationServer url = url

/-- An address is normalized to a canonical one, and validated to that one or not at all. -/
structure Canonizes (raw : List Char) : Prop where
  canonical : Canonical (normalizeCoordinationServer raw)
  validated : ∀ url, validateCoordinationServer raw = .ok url →
    url = normalizeCoordinationServer raw ∧ validateCoordinationServer url = .ok url

/-- What is kept of an authority and of what is behind it can be read again. -/
structure Readable (authority tail : List Char) : Prop where
  /-- There is more than the userinfo. -/
  host : (splitHostPort authority).1 ≠ (splitUserinfo authority).1
  /-- No bracket is in an address that lacks its own. -/
  bare : splitBrackets (splitUserinfo authority).2 = none →
    1 < (splitUserinfo authority).2.count ':' → ']' ∉ (splitUserinfo authority).2
  /-- What stands at the end is no blank. -/
  path : EndsDark (normalizePath tail)
  noPath : normalizePath tail = [] → usablePort (splitHostPort authority).2 = none →
    EndsDark (splitHostPort authority).1

/-- The scheme is one of two, and where there is a host, what is kept can be read again. -/
def Canonizable (raw : List Char) : Prop :=
  let (scheme, rest) := splitScheme (trim raw)
  let (authority, tail) := splitAuthority rest
  (scheme = "http".toList ∨ scheme = "https".toList) ∧
    ((splitHostPort authority).1 = [] ∨ Readable authority tail)

theorem canonical_default : Canonical defaultCoordinatorUrl where
  scheme := Or.inl (by decide)
  host := ⟨'3', "4.66.188.245".toList, by decide, by decide⟩
  noSlash := by decide
  stays := by decide

section Canonical

variable {address : Address} {host : List Char} {port : Option (List Char)}

theorem hasHost_text_iff : HasHost address.text ↔ ∃ c rest, address.hostPort = c :: rest ∧ c ≠ ':' := by
  rw [HasHost, address.splitScheme_text, address.splitAuthority_rest]
  dsimp only
  rw [address.splitUserinfo_authority]

theorem HostForm.ne_colon {text : List Char} (form : HostForm text host port) :
    ∀ c ∈ host.head?, c ≠ ':' := by
  rintro c hc rfl
  cases form with
  | bracketed rest closed => simp at hc
  | bare hopen hcolons => simp at hc
  | plain hopen hcolon => exact hcolon (List.mem_of_mem_head? hc)
  | withPort hopen hhost hport => exact hhost (List.mem_of_mem_head? hc)

theorem hasHost_kept_iff (form : HostForm address.hostPort host port) :
    HasHost (address.kept form).text ↔ host ≠ [] := by
  have hkept : (address.kept form).hostPort = host ++ portSuffix (usablePort port) := rfl
  rw [hasHost_text_iff, hkept]
  cases hhost : host with
  | nil =>
      cases usablePort port with
      | none => simp [portSuffix]
      | some number => simp [portSuffix]
  | cons c rest =>
      have hc : c ≠ ':' := form.ne_colon c (by rw [hhost]; rfl)
      simp [hc]

theorem getLast?_kept_text (form : HostForm address.hostPort host port)
    (hhost : address.userinfo ++ host ≠ []) : (address.kept form).text.getLast? ≠ some '/' := by
  intro hslash
  have htail : (address.kept form).tail = normalizePath address.tail := rfl
  rw [Address.text_eq, List.getLast?_append] at hslash
  by_cases hpath : normalizePath address.tail = []
  · have hne : (address.kept form).userinfo ++ (address.kept form).hostPort ≠ [] := fun hnil =>
      hhost (List.append_eq_nil_iff.mp ((List.append_assoc _ _ _).trans hnil)).1
    rw [htail, hpath, List.getLast?_nil, Option.none_or, List.append_assoc (_ ++ _),
      List.getLast?_append, List.getLast?_eq_some_getLast hne, Option.some_or] at hslash
    have hlast := List.getLast_mem hne
    rw [Option.some_inj.mp hslash] at hlast
    exact absurd ((address.kept form).undelimited _ hlast) (by decide)
  · rw [htail, List.getLast?_eq_some_getLast hpath, Option.some_or] at hslash
    exact List.rdropWhile_last_not _ _ hpath (decide_eq_true (Option.some_inj.mp hslash))

theorem endsDark_kept_iff (form : HostForm address.hostPort host port) (hhost : host ≠ []) :
    EndsDark (address.kept form).text ↔
      EndsDark (normalizePath address.tail) ∧ (normalizePath address.tail = [] →
        usablePort port = none → EndsDark (address.userinfo ++ host)) := by
  have htail : (address.kept form).tail = normalizePath address.tail := rfl
  have hkept : (address.kept form).hostPort = host ++ portSuffix (usablePort port) := rfl
  by_cases hpath : normalizePath address.tail = []
  · rw [Address.endsDark_text_of_host _ (htail.trans hpath), hkept, hpath,
      endsDark_append hhost]
    cases husable : usablePort port with
    | none =>
        rw [portSuffix, List.append_nil]
        exact ⟨fun hdark => ⟨by decide, fun _ _ => hdark⟩, fun h => h.2 rfl rfl⟩
    | some number =>
        have hdark := (endsDark_append (List.cons_ne_nil _ _) host).mpr
          (endsDark_portSuffix (some number))
        exact ⟨fun _ => ⟨by decide, fun _ hnone => by cases hnone⟩, fun _ => hdark⟩
  · rw [Address.endsDark_text_of_tail _ (htail ▸ hpath), htail]
    exact ⟨fun hdark => ⟨hdark, fun hnil => absurd hnil hpath⟩, fun h => h.1⟩

/-- What is validated is normalized to the same. -/
theorem resolve_lenient {raw url : List Char} (h : resolve raw true = .ok url) :
    resolve raw false = .ok url := by
  rw [resolve] at h ⊢
  by_cases hraw : trim raw = []
  · simp only [if_pos hraw, if_true] at h
    cases h
  simp only [if_neg hraw, if_true] at h ⊢
  by_cases hscheme : (splitScheme (trim raw)).1 ≠ "http".toList ∧
      (splitScheme (trim raw)).1 ≠ "https".toList
  · simp only [if_pos hscheme] at h
    cases h
  simp only [if_neg hscheme] at h ⊢
  split at h
  · cases h
  · next hhost =>
      rw [if_neg hhost]
      split at h
      · exact h
      · exact h
      · next text _ _ =>
          cases hport : (parseU16 text).filter fun port => port ≠ 0 with
          | none =>
              rw [hport] at h
              cases h
          | some port =>
              rw [hport] at h
              exact h

/-- **What is kept is canonical** just if it can be read again. -/
theorem canonical_kept_iff (form : HostForm address.hostPort host port)
    (hhost : address.userinfo ++ host ≠ []) :
    Canonical (address.kept form).text ↔
      Readable (address.userinfo ++ address.hostPort) address.tail := by
  have hsplit := splitHostPort_append address.userinfo_at address.hostPort_at form
  have huser := address.splitUserinfo_authority
  have hmore : (splitHostPort (address.userinfo ++ address.hostPort)).1 ≠
      (splitUserinfo (address.userinfo ++ address.hostPort)).1 ↔ host ≠ [] := by
    rw [hsplit, huser]
    simp
  constructor
  · intro h
    have hne := (hasHost_kept_iff form).mp h.host
    obtain ⟨hdark, hbare⟩ := (normalize_kept_iff form hhost).mp h.stays
    obtain ⟨hpath, hnoPath⟩ := (endsDark_kept_iff form hne).mp hdark
    exact ⟨hmore.mpr hne, by rw [huser]; exact hbare, hpath, by rw [hsplit]; exact hnoPath⟩
  · intro h
    have hne := hmore.mp h.host
    have hbare := h.bare
    have hnoPath := h.noPath
    rw [huser] at hbare
    rw [hsplit] at hnoPath
    refine ⟨?_, (hasHost_kept_iff form).mpr hne, getLast?_kept_text form hhost,
      (normalize_kept_iff form hhost).mpr
        ⟨(endsDark_kept_iff form hne).mpr ⟨h.path, hnoPath⟩, hbare⟩⟩
    exact (address.kept form).starts

end Canonical

/-- Of an address with another scheme nothing is changed but the blanks around it. -/
theorem not_canonizes {raw : List Char}
    (hscheme : ¬ ((splitScheme (trim raw)).1 = "http".toList ∨
      (splitScheme (trim raw)).1 = "https".toList)) : ¬ Canonizes raw := by
  intro h
  have hraw : trim raw ≠ [] := by
    intro hnil
    rw [hnil] at hscheme
    exact hscheme (Or.inl rfl)
  have hnormalize : normalizeCoordinationServer raw = trim raw := by
    refine normalize_of_ok ?_
    rw [resolve]
    simp only [if_neg hraw, if_pos (not_or.mp hscheme)]
    rfl
  have hstarts := h.canonical.scheme
  rw [hnormalize] at hstarts
  have hread (scheme : List Char) (hcolon : ':' ∉ scheme)
      (hbegins : scheme ++ "://".toList <+: trim raw) :
      (splitScheme (trim raw)).1 = scheme.map Char.toLower := by
    obtain ⟨rest, hrest⟩ := hbegins
    have hcut : splitOnce "://".toList (trim raw) = some (scheme, rest) := by
      rw [← hrest]
      exact splitOnce_append hcolon "//".toList rest
    rw [splitScheme, hcut]
  exact hscheme (hstarts.imp (fun hhttp => hread "http".toList (by decide) hhttp)
    (fun hhttps => hread "https".toList (by decide) hhttps))

/-- **Addresses become canonical** just if they have a scheme for it, and what is kept of them can
be read again. -/
theorem canonizes_iff (raw : List Char) : Canonizes raw ↔ Canonizable raw := by
  by_cases hscheme : (splitScheme (trim raw)).1 = "http".toList ∨
      (splitScheme (trim raw)).1 = "https".toList
  swap
  · exact ⟨fun h => absurd h (not_canonizes hscheme), fun h => absurd h.1 hscheme⟩
  obtain ⟨address, hsame, hrest⟩ := exists_address hscheme (splitScheme (trim raw)).2
  have hsplit : splitScheme (trim raw) = (address.scheme, address.rest) :=
    Prod.ext hsame.symm hrest.symm
  obtain ⟨host, port, form⟩ := exists_hostForm address.hostPort
  have hhostPort := splitHostPort_append address.userinfo_at address.hostPort_at form
  have hcanonizable : Canonizable raw ↔ address.userinfo ++ host = [] ∨
      Readable (address.userinfo ++ address.hostPort) address.tail := by
    rw [Canonizable, hsplit]
    simp only [address.splitAuthority_rest, hhostPort, address.scheme_http, true_and]
  rw [hcanonizable]
  by_cases hhost : address.userinfo ++ host = []
  · obtain ⟨hlenient, hstrict⟩ := resolve_of_noHost hsplit form hhost
    refine ⟨fun _ => Or.inl hhost, fun _ => ⟨?_, fun url h => absurd h (hstrict url)⟩⟩
    rw [normalize_of_ok hlenient]
    exact canonical_default
  · have hraw : trim raw ≠ [] := by
      intro hnil
      have hempty : address.userinfo ++ address.hostPort = [] := by
        rw [hnil] at hsplit
        exact (List.append_eq_nil_iff.mp (Prod.mk.inj hsplit).2.symm).1
      rw [hempty] at hhostPort
      exact hhost (Prod.mk.inj hhostPort).1.symm
    have hnormalize := normalize_of_ok (resolve_of_host hraw hsplit form hhost nofun)
    rw [← canonical_kept_iff form hhost, or_iff_right hhost]
    refine ⟨fun h => hnormalize ▸ h.canonical, fun h => ⟨hnormalize ▸ h, ?_⟩⟩
    intro url hvalid
    have hurl : url = (address.kept form).text :=
      (normalize_of_ok (resolve_lenient hvalid)).symm.trans hnormalize
    obtain ⟨hdark, hbare⟩ := (normalize_kept_iff form hhost).mp h.stays
    rw [hurl, hnormalize]
    exact ⟨rfl, resolve_kept form hhost hdark hbare true⟩

/-- An address with another scheme stays as it is, and so does its slash. A blank in front of the
last slash makes a valid address of one that is validated to another. -/
theorem not_canonizes_ftp :
    normalizeCoordinationServer "ftp://host/".toList = "ftp://host/".toList ∧
      ¬ Canonizes "ftp://host/".toList ∧
      validateCoordinationServer "http://host/a /".toList = .ok "http://host/a ".toList ∧
      validateCoordinationServer "http://host/a ".toList = .ok "http://host/a".toList := by
  refine ⟨by decide, fun h => ?_, by decide, by decide⟩
  exact absurd h.canonical.noSlash (by decide)

end HiveBear.Endpoint
