/-
# The address of the coordinator

An address is trimmed, taken apart, and put together again: a missing scheme is added, and the
brackets that an address of the sixth version of the protocol lacks; a port that is no number,
the query, the fragment and the slashes at the end of the path are dropped. Strictly, an address
that cannot be used is an error. For a configuration that is loaded, the default stands in for
it, or it is left as it is.

`Address` has the parts that an address is taken apart into, in such a way that the text they
make up is taken apart into them again. `resolve_of_host` says which of them are kept.
-/

import HiveBear.Library.Texts
import Mathlib.Data.List.TakeWhile
import Mathlib.Tactic.SplitIfs

namespace HiveBear.Endpoint

open Texts

def defaultCoordinatorUrl : List Char := "http://34.66.188.245".toList

inductive CoordinatorUrlError
  | empty
  | missingHost (url : List Char)
  | unsupportedScheme (scheme : List Char)
  | invalidPort (port : List Char)
  deriving DecidableEq

/-! ## Taking an address apart -/

def splitScheme (raw : List Char) : List Char × List Char :=
  match splitOnce "://".toList raw with
  | some (scheme, rest) => (scheme.map Char.toLower, rest)
  | none => ("http".toList, raw)

/-- What ends the authority. -/
def isDelimiter (c : Char) : Bool := c = '/' || c = '?' || c = '#'

def splitAuthority (rest : List Char) : List Char × List Char :=
  (rest.takeWhile fun c => !isDelimiter c, rest.dropWhile fun c => !isDelimiter c)

/-- The userinfo with its at sign, and what is behind it. -/
def splitUserinfo (authority : List Char) : List Char × List Char :=
  match rsplitOnce ['@'] authority with
  | some (user, afterUserinfo) => (user ++ ['@'], afterUserinfo)
  | none => ([], authority)

/-- What is between brackets at the front, and what is behind them. -/
def splitBrackets (afterUserinfo : List Char) : Option (List Char × List Char) :=
  (stripStart ['['] afterUserinfo).bind (splitOnce [']'])

def splitHostPort (authority : List Char) : List Char × Option (List Char) :=
  let (userinfo, afterUserinfo) := splitUserinfo authority
  match splitBrackets afterUserinfo with
  | some (literal, rest) => (userinfo ++ '[' :: literal ++ [']'], stripStart [':'] rest)
  | none =>
      if afterUserinfo.count ':' > 1 then (userinfo ++ '[' :: afterUserinfo ++ [']'], none)
      else
        match rsplitOnce [':'] afterUserinfo with
        | some (host, port) => (userinfo ++ host, some port)
        | none => (authority, none)

def normalizePath (tail : List Char) : List Char :=
  (tail.takeWhile fun c => c ≠ '?' && c ≠ '#').rdropWhile fun c => c = '/'

/-- The number that decimal digits denote, if it fits 16 bits. A leading plus sign is
accepted. -/
def parseU16 (text : List Char) : Option ℕ :=
  let digits := (stripStart ['+'] text).getD text
  let value := Nat.ofDigitChars 10 digits 0
  if digits ≠ [] ∧ digits.all Char.isDigit ∧ value < 65536 then some value else none

/-! ## Putting it together -/

def resolve (raw : List Char) (strict : Bool) : Except CoordinatorUrlError (List Char) :=
  let trimmed := trim raw
  if trimmed = [] then
    if strict then .error .empty else .ok defaultCoordinatorUrl
  else
    let (scheme, rest) := splitScheme trimmed
    if scheme ≠ "http".toList ∧ scheme ≠ "https".toList then
      if strict then .error (.unsupportedScheme scheme) else .ok trimmed
    else
      let (authority, tail) := splitAuthority rest
      let (host, portText) := splitHostPort authority
      if host = [] then
        if strict then .error (.missingHost trimmed) else .ok defaultCoordinatorUrl
      else
        let withAuthority (authority : List Char) :=
          scheme ++ "://".toList ++ authority ++ normalizePath tail
        match portText with
        | none | some [] => .ok (withAuthority host)
        | some text =>
            match (parseU16 text).filter fun port => port ≠ 0 with
            | some port => .ok (withAuthority (host ++ ':' :: port.repr.toList))
            | none =>
                if strict then .error (.invalidPort text)
                -- Only the port is dropped, and the host is kept.
                else .ok (withAuthority host)

def validateCoordinationServer (raw : List Char) : Except CoordinatorUrlError (List Char) :=
  resolve raw true

def normalizeCoordinationServer (raw : List Char) : List Char :=
  match resolve raw false with
  | .ok url => url
  | .error _ => defaultCoordinatorUrl

/-! ## The forms of a host -/

/-- What the text behind the userinfo can be, with the host and the port that are read in it. -/
inductive HostForm : List Char → List Char → Option (List Char) → Prop
  | bracketed {literal : List Char} (rest : List Char) (closed : ']' ∉ literal) :
      HostForm ('[' :: literal ++ ']' :: rest) ('[' :: literal ++ [']']) (stripStart [':'] rest)
  | bare {address : List Char} (unclosed : splitBrackets address = none)
      (colons : 1 < address.count ':') : HostForm address ('[' :: address ++ [']']) none
  | plain {host : List Char} (unclosed : splitBrackets host = none) (colon : ':' ∉ host) :
      HostForm host host none
  | withPort {host port : List Char} (unclosed : splitBrackets (host ++ ':' :: port) = none)
      (hostColon : ':' ∉ host) (portColon : ':' ∉ port) :
      HostForm (host ++ ':' :: port) host (some port)

theorem splitBrackets_eq_none_iff {text : List Char} :
    splitBrackets text = none ↔ ∀ rest, text = '[' :: rest → ']' ∉ rest := by
  rw [splitBrackets, stripStart]
  constructor
  · rintro h rest rfl
    rw [if_pos ⟨rest, rfl⟩, Option.bind_some] at h
    rcases splitOnce_singleton ']' rest with ⟨-, hmem⟩ | ⟨_, _, hsome, -⟩
    · exact hmem
    · exact absurd (h.symm.trans hsome) (by simp)
  · intro h
    split_ifs with hstarts
    · obtain ⟨rest, rfl⟩ := hstarts
      exact splitOnce_eq_none (h rest rfl)
    · rfl

theorem splitBrackets_append {literal : List Char} (closed : ']' ∉ literal) (rest : List Char) :
    splitBrackets ('[' :: literal ++ ']' :: rest) = some (literal, rest) := by
  rw [splitBrackets, stripStart, if_pos ⟨literal ++ ']' :: rest, rfl⟩, Option.bind_some]
  have hcut := splitOnce_append closed [] rest
  simpa using hcut

/-- Every text is of one of the forms. -/
theorem exists_hostForm (text : List Char) : ∃ host port, HostForm text host port := by
  by_cases hopen : splitBrackets text = none
  · by_cases hcolons : 1 < text.count ':'
    · exact ⟨_, _, .bare hopen hcolons⟩
    · by_cases hcolon : ':' ∈ text
      · obtain ⟨host, port, rfl, hport⟩ := exists_last_mem hcolon
        have hhost : ':' ∉ host := by
          rw [← List.count_eq_zero]
          rw [List.count_append, List.count_cons_self] at hcolons
          omega
        exact ⟨_, _, .withPort hopen hhost hport⟩
      · exact ⟨_, _, .plain hopen hcolon⟩
  · obtain ⟨rest, rfl, hclosed⟩ : ∃ rest, text = '[' :: rest ∧ ']' ∈ rest := by
      by_contra hnone
      exact hopen (splitBrackets_eq_none_iff.mpr fun rest hrest hclosed =>
        hnone ⟨rest, hrest, hclosed⟩)
    obtain ⟨literal, behind, rfl, hliteral⟩ := List.eq_append_cons_of_mem hclosed
    exact ⟨_, _, .bracketed behind hliteral⟩

theorem splitUserinfo_append {userinfo text : List Char}
    (huser : userinfo = [] ∨ ∃ user, userinfo = user ++ ['@']) (htext : '@' ∉ text) :
    splitUserinfo (userinfo ++ text) = (userinfo, text) := by
  rw [splitUserinfo]
  rcases huser with rfl | ⟨user, rfl⟩
  · rw [List.nil_append, rsplitOnce_eq_none htext]
  · rw [List.append_assoc, List.singleton_append, rsplitOnce_append htext]

/-- The host and the port are read in the text behind the userinfo. -/
theorem splitHostPort_append {userinfo text host : List Char} {port : Option (List Char)}
    (huser : userinfo = [] ∨ ∃ user, userinfo = user ++ ['@']) (htext : '@' ∉ text)
    (form : HostForm text host port) :
    splitHostPort (userinfo ++ text) = (userinfo ++ host, port) := by
  rw [splitHostPort, splitUserinfo_append huser htext]
  cases form with
  | bracketed rest closed =>
      simp only [splitBrackets_append closed, List.append_assoc]
  | bare hopen hcolons => simp [hopen, hcolons]
  | plain hopen hcolon =>
      have hcount : ¬ text.count ':' > 1 := by rw [List.count_eq_zero.mpr hcolon]; omega
      simp [hopen, hcount, rsplitOnce_eq_none hcolon]
  | @withPort host port hopen hhost hport =>
      have hcount : ¬ (host ++ ':' :: port).count ':' > 1 := by
        rw [List.count_append, List.count_cons_self, List.count_eq_zero.mpr hhost,
          List.count_eq_zero.mpr hport]
        omega
      simp only [hopen, if_neg hcount, rsplitOnce_append hport]

/-! ## Ports -/

/-- The port that stays in the address. -/
def usablePort (portText : Option (List Char)) : Option ℕ :=
  portText.bind fun text => (parseU16 text).filter fun port => port ≠ 0

def portSuffix : Option ℕ → List Char
  | some port => ':' :: port.repr.toList
  | none => []

theorem isDigit_of_mem_repr {n : ℕ} {c : Char} (h : c ∈ n.repr.toList) : c.isDigit = true := by
  rw [Nat.toList_repr] at h
  exact Nat.isDigit_of_mem_toDigits (by decide) (by decide) h

theorem notMem_repr {c : Char} (hc : c.isDigit = false) (n : ℕ) : c ∉ n.repr.toList := by
  intro h
  rw [isDigit_of_mem_repr h] at hc
  cases hc

/-- A number is read as it is written. -/
theorem parseU16_repr {n : ℕ} (h : n < 65536) : parseU16 n.repr.toList = some n := by
  have hdigits : n.repr.toList.all Char.isDigit = true :=
    List.all_eq_true.mpr fun c hc => isDigit_of_mem_repr hc
  have hne : n.repr.toList ≠ [] := by
    rw [Nat.toList_repr]
    exact Nat.toDigits_ne_nil
  have hvalue : Nat.ofDigitChars 10 n.repr.toList 0 = n := by
    rw [Nat.toList_repr, Nat.ofDigitChars_ten_toDigits]
  have hplus : ¬ ['+'] <+: n.repr.toList := by
    rintro ⟨rest, hrest⟩
    exact notMem_repr (c := '+') rfl n (by rw [← hrest]; exact List.mem_cons_self)
  rw [parseU16, stripStart, if_neg hplus, Option.getD_none, hvalue, if_pos ⟨hne, hdigits, h⟩]

/-- What is read as a number is made of digits, but for a plus sign. -/
theorem parseU16_some {text : List Char} {n : ℕ} (h : parseU16 text = some n) :
    n < 65536 ∧ ∀ c ∈ text, c = '+' ∨ c.isDigit = true := by
  rw [parseU16, stripStart] at h
  by_cases hplus : ['+'] <+: text
  · obtain ⟨rest, rfl⟩ := hplus
    simp only [if_pos (List.prefix_append ['+'] rest), Option.getD_some] at h
    split_ifs at h with hdigits
    cases h
    refine ⟨hdigits.2.2, fun c hc => ?_⟩
    exact (List.mem_cons.mp hc).imp id fun hrest => List.all_eq_true.mp hdigits.2.1 c hrest
  · simp only [if_neg hplus, Option.getD_none] at h
    split_ifs at h with hdigits
    cases h
    exact ⟨hdigits.2.2, fun c hc => Or.inr (List.all_eq_true.mp hdigits.2.1 c hc)⟩

theorem usablePort_some {portText : Option (List Char)} {port : ℕ}
    (h : usablePort portText = some port) : port ≠ 0 ∧ port < 65536 := by
  obtain ⟨text, -, hfilter⟩ := Option.bind_eq_some_iff.mp h
  obtain ⟨hparse, hne⟩ := Option.filter_eq_some_iff.mp hfilter
  exact ⟨of_decide_eq_true hne, (parseU16_some hparse).1⟩

/-- A port is read again as it was read. -/
theorem usablePort_repr (portText : Option (List Char)) :
    usablePort ((usablePort portText).map fun port => port.repr.toList) = usablePort portText := by
  cases h : usablePort portText with
  | none => rfl
  | some port =>
      obtain ⟨hne, hlt⟩ := usablePort_some h
      rw [Option.map_some, usablePort, Option.bind_some, parseU16_repr hlt]
      exact if_pos (by simpa using hne)

theorem normalizePath_normalizePath (tail : List Char) :
    normalizePath (normalizePath tail) = normalizePath tail := by
  have hall : ∀ c ∈ normalizePath tail, (decide (c ≠ '?') && decide (c ≠ '#')) = true := by
    intro c hc
    have hkept : c ∈ tail.takeWhile fun c => c ≠ '?' && c ≠ '#' :=
      (List.rdropWhile_prefix _ _).mem hc
    exact List.all_eq_true.mp (List.all_takeWhile) c hkept
  rw [normalizePath, List.takeWhile_eq_self_iff.mpr hall]
  exact List.rdropWhile_idempotent _ _

/-! ## Addresses that are taken apart -/

/-- The parts of an address, each of which is found again in the text that they make up. -/
structure Address where
  scheme : List Char
  userinfo : List Char
  hostPort : List Char
  tail : List Char
  scheme_http : scheme = "http".toList ∨ scheme = "https".toList
  userinfo_at : userinfo = [] ∨ ∃ user, userinfo = user ++ ['@']
  hostPort_at : '@' ∉ hostPort
  undelimited : ∀ c ∈ userinfo ++ hostPort, isDelimiter c = false
  tail_delimiter : ∀ c ∈ tail.head?, isDelimiter c = true

/-- What a host is written with. -/
theorem HostForm.mem_host {text host : List Char} {port : Option (List Char)}
    (form : HostForm text host port) {c : Char} (hc : c ∈ host) : c ∈ text ∨ c = '[' ∨ c = ']' := by
  cases form with
  | bracketed rest closed => simp at hc ⊢; tauto
  | bare hopen hcolons => simp at hc ⊢; tauto
  | plain hopen hcolon => exact Or.inl hc
  | withPort hopen hhost hport => exact Or.inl (List.mem_append_left _ hc)

theorem mem_portSuffix {port : Option ℕ} {c : Char} (hc : c ∈ portSuffix port) :
    c = ':' ∨ c.isDigit = true := by
  cases port with
  | none => cases hc
  | some port => exact (List.mem_cons.mp hc).imp id isDigit_of_mem_repr

/-- A delimiter is one of three characters. -/
theorem isDelimiter_eq_false {p : Char → Bool} (h : p '/' = false ∧ p '?' = false ∧ p '#' = false)
    {c : Char} (hc : p c = true) : isDelimiter c = false := by
  obtain ⟨hslash, hquery, hfragment⟩ := h
  have hne {d : Char} (hd : p d = false) : c ≠ d := by
    rintro rfl
    rw [hc] at hd
    cases hd
  simp [isDelimiter, hne hslash, hne hquery, hne hfragment]

namespace Address

variable (address : Address)

def rest : List Char := address.userinfo ++ address.hostPort ++ address.tail

def text : List Char := address.scheme ++ "://".toList ++ address.rest

theorem starts : "http://".toList <+: address.text ∨ "https://".toList <+: address.text := by
  rw [text]
  rcases address.scheme_http with h | h
  · exact Or.inl ⟨address.rest, by rw [h]; rfl⟩
  · exact Or.inr ⟨address.rest, by rw [h]; rfl⟩

theorem splitScheme_text : splitScheme address.text = (address.scheme, address.rest) := by
  have hcolon : ':' ∉ address.scheme := by
    rcases address.scheme_http with h | h <;> rw [h] <;> decide
  have hlower : address.scheme.map Char.toLower = address.scheme := by
    rcases address.scheme_http with h | h <;> rw [h] <;> decide
  rw [splitScheme, text]
  have hcut : splitOnce "://".toList (address.scheme ++ "://".toList ++ address.rest) =
      some (address.scheme, address.rest) := splitOnce_append hcolon "//".toList address.rest
  rw [hcut]
  exact congrArg (·, address.rest) hlower

theorem splitAuthority_rest :
    splitAuthority address.rest = (address.userinfo ++ address.hostPort, address.tail) := by
  have hall : ∀ c ∈ address.userinfo ++ address.hostPort, (!isDelimiter c) = true := fun c hc => by
    rw [address.undelimited c hc]
    rfl
  have htail : address.tail.takeWhile (fun c => !isDelimiter c) = [] ∧
      address.tail.dropWhile (fun c => !isDelimiter c) = address.tail := by
    have hfirst := address.tail_delimiter
    cases htail : address.tail with
    | nil => exact ⟨rfl, rfl⟩
    | cons c rest =>
        rw [htail] at hfirst
        simp [hfirst c rfl]
  rw [splitAuthority, rest, List.takeWhile_append_of_pos hall, List.dropWhile_append_of_pos hall,
    htail.1, htail.2, List.append_nil]

theorem splitUserinfo_authority :
    splitUserinfo (address.userinfo ++ address.hostPort) =
      (address.userinfo, address.hostPort) :=
  splitUserinfo_append address.userinfo_at address.hostPort_at

end Address

/-- Whatever is behind a scheme is taken apart. -/
theorem exists_address {scheme : List Char}
    (hscheme : scheme = "http".toList ∨ scheme = "https".toList) (rest : List Char) :
    ∃ address : Address, address.scheme = scheme ∧ address.rest = rest := by
  have hsplit := List.takeWhile_append_dropWhile (p := fun c => !isDelimiter c) (l := rest)
  have hundelimited : ∀ c ∈ rest.takeWhile (fun c => !isDelimiter c), isDelimiter c = false :=
    fun c hc => by simpa using List.mem_takeWhile_imp hc
  have hdelimiter : ∀ c ∈ (rest.dropWhile fun c => !isDelimiter c).head?, isDelimiter c = true := by
    intro c hc
    have hfirst := List.head?_dropWhile_not (fun c => !isDelimiter c) rest
    rw [Option.mem_def.mp hc] at hfirst
    simpa using hfirst
  by_cases hat : '@' ∈ rest.takeWhile fun c => !isDelimiter c
  · obtain ⟨user, hostPort, happend, hhost⟩ := exists_last_mem hat
    have hauthority : user ++ ['@'] ++ hostPort = rest.takeWhile fun c => !isDelimiter c := by
      rw [happend, List.append_assoc, List.singleton_append]
    exact ⟨⟨scheme, user ++ ['@'], hostPort, _, hscheme, Or.inr ⟨user, rfl⟩, hhost,
      by rw [hauthority]; exact hundelimited, hdelimiter⟩, rfl,
      (congrArg (· ++ _) hauthority).trans hsplit⟩
  · exact ⟨⟨scheme, [], _, _, hscheme, Or.inl rfl, hat, hundelimited, hdelimiter⟩, rfl, hsplit⟩

/-- What is cut off behind leaves the first character. -/
theorem delimiter_of_prefix {front tail : List Char} (hbegins : front <+: tail)
    (h : ∀ c ∈ tail.head?, isDelimiter c = true) : ∀ c ∈ front.head?, isDelimiter c = true := by
  intro c hc
  obtain ⟨rest, rfl⟩ := hbegins
  cases front with
  | nil => cases hc
  | cons first front => exact h c hc

namespace Address

variable (address : Address) {host : List Char} {port : Option (List Char)}

/-- What is kept of an address. -/
def kept (form : HostForm address.hostPort host port) : Address where
  scheme := address.scheme
  userinfo := address.userinfo
  hostPort := host ++ portSuffix (usablePort port)
  tail := normalizePath address.tail
  scheme_http := address.scheme_http
  userinfo_at := address.userinfo_at
  hostPort_at := by
    intro hat
    rcases List.mem_append.mp hat with hhost | hport
    · rcases form.mem_host hhost with htext | hbracket | hbracket
      · exact address.hostPort_at htext
      · exact absurd hbracket (by decide)
      · exact absurd hbracket (by decide)
    · rcases mem_portSuffix hport with hcolon | hdigit
      · exact absurd hcolon (by decide)
      · exact absurd hdigit (by decide)
  undelimited := by
    intro c hc
    rcases List.mem_append.mp hc with huser | hhostPort
    · exact address.undelimited c (List.mem_append_left _ huser)
    rcases List.mem_append.mp hhostPort with hhost | hport
    · rcases form.mem_host hhost with htext | rfl | rfl
      · exact address.undelimited c (List.mem_append_right _ htext)
      · rfl
      · rfl
    · rcases mem_portSuffix hport with rfl | hdigit
      · rfl
      · exact isDelimiter_eq_false (by decide) hdigit
  tail_delimiter := delimiter_of_prefix
    ((List.rdropWhile_prefix _ _).trans (List.takeWhile_prefix _)) address.tail_delimiter

end Address

section Resolve

variable {raw : List Char} {address : Address} {host : List Char} {port : Option (List Char)}

/-- The default stands in for an address without a host, which is an error strictly. -/
theorem resolve_of_noHost (hsplit : splitScheme (trim raw) = (address.scheme, address.rest))
    (form : HostForm address.hostPort host port) (hhost : address.userinfo ++ host = []) :
    resolve raw false = .ok defaultCoordinatorUrl ∧ ∀ url, resolve raw true ≠ .ok url := by
  have hscheme : ¬ (address.scheme ≠ "http".toList ∧ address.scheme ≠ "https".toList) := by
    have := address.scheme_http
    tauto
  rw [resolve, resolve]
  simp only [hsplit, address.splitAuthority_rest, if_neg hscheme,
    splitHostPort_append address.userinfo_at address.hostPort_at form, if_pos hhost,
    Bool.false_eq_true, if_false, if_true]
  refine ⟨ite_self _, ?_⟩
  intro url h
  split_ifs at h

/-- The host and the path are kept, and the port if it is one. -/
theorem resolve_of_host (hraw : trim raw ≠ [])
    (hsplit : splitScheme (trim raw) = (address.scheme, address.rest))
    (form : HostForm address.hostPort host port) (hhost : address.userinfo ++ host ≠ [])
    {strict : Bool}
    (hport : strict = true → ∀ text ∈ port, text = [] ∨ (usablePort port).isSome = true) :
    resolve raw strict = .ok (address.kept form).text := by
  have hscheme : ¬ (address.scheme ≠ "http".toList ∧ address.scheme ≠ "https".toList) := by
    have := address.scheme_http
    tauto
  rw [resolve]
  simp only [if_neg hraw, hsplit, address.splitAuthority_rest, if_neg hscheme,
    splitHostPort_append address.userinfo_at address.hostPort_at form, if_neg hhost]
  have htext (kept : List Char) (hkept : kept = host ++ portSuffix (usablePort port)) :
      address.scheme ++ "://".toList ++ (address.userinfo ++ kept) ++ normalizePath address.tail =
        (address.kept form).text := by
    rw [Address.text, Address.rest, hkept]
    simp only [Address.kept, List.append_assoc]
  have hnone (hnone : usablePort port = none) :
      address.scheme ++ "://".toList ++ (address.userinfo ++ host) ++ normalizePath address.tail =
        (address.kept form).text := htext host (by rw [hnone]; exact (List.append_nil host).symm)
  match port with
  | none => exact congrArg Except.ok (hnone rfl)
  | some [] => exact congrArg Except.ok (hnone rfl)
  | some (c :: text) =>
      dsimp only
      cases hparse : (parseU16 (c :: text)).filter fun port => port ≠ 0 with
      | none =>
          have hstrict : ¬ strict = true := by
            intro hstrict
            rcases hport hstrict _ rfl with hnil | hsome
            · cases hnil
            · rw [usablePort, Option.bind_some, hparse] at hsome
              cases hsome
          rw [← hnone hparse]
          exact if_neg hstrict
      | some number =>
          have hkept := htext (host ++ ':' :: number.repr.toList) (by
            rw [usablePort, Option.bind_some, hparse]
            rfl)
          rw [← hkept, ← List.append_assoc address.userinfo]

end Resolve

end HiveBear.Endpoint
