import Gretun.Basic
import Gretun.Foundation.Cut

/-!
# URLs

The part of `net/url` that a request passes through: `url.Parse` on the client,
`RequestURI` for the request line, and `url.ParseRequestURI` on the server. A URL
is a byte string. What `parseAuthority` accepts between `//` and the next slash is
left open.

A request to a fixed route of a server given by scheme and authority arrives
there with the route as its path, whatever the query holds.
-/

namespace Gretun

namespace Net

open Foundation.Cut

inductive UrlError where
  | controlCharacter
  | empty
  | missingScheme
  | invalidRequestURI
  | colonInFirstSegment
  | escape
  | authority (err : String)
  deriving DecidableEq

structure URL where
  scheme : Bytes := []
  opaqueData : Bytes := []
  host : Bytes := []
  path : Bytes := []
  rawPath : Bytes := []
  forceQuery : Bool := false
  rawQuery : Bytes := []
  fragment : Bytes := []
  deriving DecidableEq

namespace URL

/-! ## Escapes -/

def isLetter (c : UInt8) : Bool := (97 ≤ c && c ≤ 122) || (65 ≤ c && c ≤ 90)

def isDigit (c : UInt8) : Bool := 48 ≤ c && c ≤ 57

def unhex (c : UInt8) : Option UInt8 :=
  if 48 ≤ c && c ≤ 57 then some (c - 48)
  else if 97 ≤ c && c ≤ 102 then some (c - 87)
  else if 65 ≤ c && c ≤ 70 then some (c - 55)
  else none

/-- `unescape`, for a path or a fragment. -/
def unescape : Bytes → Option Bytes
  | [] => some []
  | 37 :: a :: b :: rest => do
      let hi ← unhex a
      let lo ← unhex b
      let rest ← unescape rest
      return (hi * 16 + lo) :: rest
  | 37 :: _ => none
  | c :: rest => (unescape rest).map (c :: ·)

/-- `shouldEscape(c, encodePath)`: letters, digits and `-_.~$&+,/:;=@` stay. -/
def shouldEscape (c : UInt8) : Bool :=
  !(isLetter c || isDigit c ||
    [45, 95, 46, 126, 36, 38, 43, 44, 47, 58, 59, 61, 64].contains c)

def upperHex (n : UInt8) : UInt8 := if n < 10 then n + 48 else n + 55

def escapePath (s : Bytes) : Bytes :=
  s.flatMap fun c =>
    if shouldEscape c then [37, upperHex (c / 16), upperHex (c % 16)] else [c]

def validEncoded (s : Bytes) : Bool :=
  s.all fun c =>
    [33, 36, 38, 39, 40, 41, 42, 43, 44, 59, 61, 58, 64, 91, 93, 37].contains c ||
      !shouldEscape c

/-- The path of a URL, and its raw form when that differs from the default one. -/
def setPath (u : URL) (p : Bytes) : Except UrlError URL :=
  match unescape p with
  | none => .error .escape
  | some path =>
      .ok { u with
        path := path
        rawPath := if p = escapePath path then [] else p }

def escapedPath (u : URL) : Bytes :=
  if u.rawPath ≠ [] ∧ validEncoded u.rawPath ∧ unescape u.rawPath = some u.path then
    u.rawPath
  else if u.path = [42] then [42]
  else escapePath u.path

/-! ## Parsing -/

def isControl (c : UInt8) : Bool := c < 32 || c = 127

/-- `getScheme`, `seen` being the characters before `rest`. -/
def getSchemeFrom (raw seen : Bytes) : Bytes → Except UrlError (Bytes × Bytes)
  | [] => .ok ([], raw)
  | c :: rest =>
      if isLetter c then getSchemeFrom raw (seen ++ [c]) rest
      else if isDigit c || c = 43 || c = 45 || c = 46 then
        if seen = [] then .ok ([], raw) else getSchemeFrom raw (seen ++ [c]) rest
      else if c = 58 then
        if seen = [] then .error .missingScheme else .ok (seen, rest)
      else .ok ([], raw)

def getScheme (raw : Bytes) : Except UrlError (Bytes × Bytes) :=
  getSchemeFrom raw [] raw

def toLower (s : Bytes) : Bytes :=
  s.map fun c => if 65 ≤ c && c ≤ 90 then c + 32 else c

/-- What precedes the query, whether there is an empty query, and the query. -/
def splitQuery (rest : Bytes) : Bytes × Bool × Bytes :=
  if rest.getLast? = some 63 ∧ rest.count 63 = 1 then (rest.dropLast, true, [])
  else ((cut 63 rest).1, false, (cut 63 rest).2.getD [])

def splitAuthority (rest : Bytes) : Bytes × Bytes :=
  match cut 47 rest with
  | (authority, some path) => (authority, 47 :: path)
  | (authority, none) => (authority, [])

variable (parseAuthority : Bytes → Except String Bytes)

/-- The end of `parse`, once scheme and query are split off. -/
def parseHierarchy (u : URL) (viaRequest : Bool) (rest : Bytes) :
    Except UrlError URL :=
  if rest.head? ≠ some 47 ∧ u.scheme ≠ [] then .ok { u with opaqueData := rest }
  else if rest.head? ≠ some 47 ∧ viaRequest then .error .invalidRequestURI
  else if rest.head? ≠ some 47 ∧ 58 ∈ (cut 47 rest).1 then
    .error .colonInFirstSegment
  else if (u.scheme ≠ [] ∨ !viaRequest ∧ rest.take 3 ≠ [47, 47, 47]) ∧
      rest.take 2 = [47, 47] then
    let (authority, path) := splitAuthority (rest.drop 2)
    match parseAuthority authority with
    | .error err => .error (.authority err)
    | .ok host => setPath { u with host := host } path
  else setPath u rest

/-- `parse`. -/
def parseRaw (raw : Bytes) (viaRequest : Bool) : Except UrlError URL := do
  if raw.any isControl then throw .controlCharacter
  if raw = [] ∧ viaRequest then throw .empty
  if raw = [42] then return { path := [42] }
  let (scheme, rest) ← getScheme raw
  let (rest, forceQuery, rawQuery) := splitQuery rest
  parseHierarchy parseAuthority
    { scheme := toLower scheme, forceQuery := forceQuery, rawQuery := rawQuery }
    viaRequest rest

def parse (raw : Bytes) : Except UrlError URL := do
  let u ← parseRaw parseAuthority (cut 35 raw).1 false
  match (cut 35 raw).2 with
  | none => return u
  | some frag =>
      match unescape frag with
      | none => throw .escape
      | some frag => return { u with fragment := frag }

def parseRequestURI (raw : Bytes) : Except UrlError URL :=
  parseRaw parseAuthority raw true

def requestURI (u : URL) : Bytes :=
  let result :=
    if u.opaqueData = [] then
      if u.escapedPath = [] then [47] else u.escapedPath
    else if u.opaqueData.take 2 = [47, 47] then u.scheme ++ 58 :: u.opaqueData
    else u.opaqueData
  if u.forceQuery || u.rawQuery ≠ [] then result ++ 63 :: u.rawQuery else result

/-! ## Routes of a server -/

def withQuery (path query : Bytes) : Bytes :=
  if query = [] then path else path ++ 63 :: query

structure Plain (route : Bytes) : Prop where
  head : route.head? = some 47
  query : 63 ∉ route
  fragment : 35 ∉ route
  control : route.any isControl = false
  unescape : unescape route = some route
  escape : escapePath route = route

instance (route : Bytes) : Decidable (Plain route) :=
  decidable_of_iff
    (route.head? = some 47 ∧ 63 ∉ route ∧ 35 ∉ route ∧
      route.any isControl = false ∧ URL.unescape route = some route ∧
      escapePath route = route)
    ⟨fun ⟨head, query, fragment, control, unescape, escape⟩ =>
      ⟨head, query, fragment, control, unescape, escape⟩,
      fun h => ⟨h.head, h.query, h.fragment, h.control, h.unescape, h.escape⟩⟩

structure IsScheme (scheme : Bytes) : Prop where
  ne_nil : scheme ≠ []
  head : ∀ c ∈ scheme.head?, isLetter c
  chars : ∀ c ∈ scheme, isLetter c ∨ isDigit c ∨ c = 43 ∨ c = 45 ∨ c = 46

/-- A base URL without a path, such as `http://coord:8443`. -/
def IsBase (base : Bytes) : Prop :=
  ∃ scheme authority, base = scheme ++ 58 :: 47 :: 47 :: authority ∧
    IsScheme scheme ∧ 47 ∉ authority ∧ 63 ∉ authority ∧ 35 ∉ base

theorem getSchemeFrom_append (raw : Bytes) {seen xs : Bytes} (rest : Bytes)
    (hchars : ∀ c ∈ xs, isLetter c ∨ isDigit c ∨ c = 43 ∨ c = 45 ∨ c = 46)
    (hhead : seen = [] → xs ≠ [] ∧ ∀ c ∈ xs.head?, isLetter c) :
    getSchemeFrom raw seen (xs ++ 58 :: rest) = .ok (seen ++ xs, rest) := by
  induction xs generalizing seen with
  | nil =>
      have hseen : seen ≠ [] := fun h => (hhead h).1 rfl
      have hcolon : isLetter 58 = false ∧ isDigit 58 = false := by decide
      simp [getSchemeFrom, hcolon.1, hcolon.2, hseen]
  | cons c xs ih =>
      have hrest : getSchemeFrom raw (seen ++ [c]) (xs ++ 58 :: rest) =
          .ok (seen ++ c :: xs, rest) := by
        rw [ih (fun c' hc' => hchars c' (List.mem_cons_of_mem _ hc')) (by simp)]
        simp
      rw [List.cons_append, getSchemeFrom]
      by_cases hletter : isLetter c
      · rw [if_pos hletter, hrest]
      · have hseen : seen ≠ [] := fun h => hletter ((hhead h).2 c rfl)
        have hmore : (isDigit c || c = 43 || c = 45 || c = 46) = true := by
          have hc := hchars c List.mem_cons_self
          simp only [hletter, Bool.false_eq_true, false_or] at hc
          simpa [or_assoc] using hc
        rw [if_neg hletter, if_pos hmore, if_neg hseen, hrest]

theorem getScheme_append {scheme : Bytes} (h : IsScheme scheme) (rest : Bytes) :
    getScheme (scheme ++ 58 :: rest) = .ok (scheme, rest) :=
  getSchemeFrom_append _ rest h.chars fun _ => ⟨h.ne_nil, h.head⟩

theorem splitQuery_withQuery {front : Bytes} (h : 63 ∉ front) (query : Bytes) :
    splitQuery (withQuery front query) = (front, false, query) := by
  unfold withQuery
  split
  · rename_i hnil
    have hlast : front.getLast? ≠ some 63 :=
      fun hlast => h (List.mem_of_getLast? hlast)
    rw [splitQuery, if_neg fun hc => hlast hc.1, cut_of_notMem h, hnil]
    rfl
  · rename_i hne
    have hnot : ¬ ((front ++ 63 :: query).getLast? = some 63 ∧
        (front ++ 63 :: query).count 63 = 1) := by
      rintro ⟨hlast, hcount⟩
      -- the last character would be a second question mark
      have hmem : 63 ∈ query := by
        rw [List.getLast?_append, List.getLast?_cons] at hlast
        cases hq : query.getLast? with
        | none => exact absurd (List.getLast?_eq_none_iff.1 hq) hne
        | some c =>
            rw [hq] at hlast
            obtain rfl : c = 63 := by simpa using hlast
            exact List.mem_of_getLast? hq
      have hpos := List.count_pos_iff.2 hmem
      rw [List.count_append, List.count_cons_self] at hcount
      omega
    rw [splitQuery, if_neg hnot, cut_append h]
    rfl

theorem setPath_plain {route : Bytes} (h : Plain route) (u : URL) :
    setPath u route = .ok { u with path := route, rawPath := [] } := by
  simp [setPath, h.unescape, h.escape]

theorem exists_cons_of_plain {route : Bytes} (h : Plain route) :
    ∃ tail, route = 47 :: tail := by
  cases route with
  | nil => cases h.head
  | cons c tail =>
      obtain rfl := Option.some.inj h.head
      exact ⟨tail, rfl⟩

theorem splitAuthority_append {authority : Bytes} (h : 47 ∉ authority)
    {route : Bytes} (hroute : Plain route) :
    splitAuthority (authority ++ route) = (authority, route) := by
  obtain ⟨tail, rfl⟩ := exists_cons_of_plain hroute
  rw [splitAuthority, cut_append h]

/-- The client's side: the route behind the authority is the path. -/
theorem parseHierarchy_authority {u : URL} (hu : u.scheme ≠ [])
    {authority route : Bytes} (h : 47 ∉ authority) (hroute : Plain route)
    {u' : URL}
    (hok : parseHierarchy parseAuthority u false
      (47 :: 47 :: (authority ++ route)) = .ok u') :
    ∃ host, u' = { u with host := host, path := route, rawPath := [] } := by
  have hslashes : (47 :: 47 :: (authority ++ route)).drop 2 = authority ++ route :=
    rfl
  simp only [parseHierarchy, List.head?_cons, ne_eq, not_true_eq_false, false_and,
    if_false, hu, not_false_eq_true, true_or, List.take_succ_cons, List.take_zero,
    and_self, if_true, hslashes, splitAuthority_append h hroute] at hok
  cases hparse : parseAuthority authority with
  | error err =>
      rw [hparse] at hok
      cases hok
  | ok host =>
      simp only [hparse, setPath_plain hroute] at hok
      exact ⟨host, (Except.ok.inj hok).symm⟩

/-- The server's side: the route of a request is its path. -/
theorem parseHierarchy_request (u : URL) (hu : u.scheme = []) {route : Bytes}
    (hroute : Plain route) :
    parseHierarchy parseAuthority u true route =
      .ok { u with path := route, rawPath := [] } := by
  simp [parseHierarchy, hroute.head, hu, setPath_plain hroute]

theorem any_isControl_of_parseRaw {raw : Bytes} {viaRequest : Bool} {u : URL}
    (h : parseRaw parseAuthority raw viaRequest = .ok u) :
    raw.any isControl = false := by
  by_contra hctl
  rw [Bool.not_eq_false] at hctl
  rw [parseRaw, if_pos hctl] at h
  cases h

theorem append_withQuery (xs path query : Bytes) :
    xs ++ withQuery path query = withQuery (xs ++ path) query := by
  unfold withQuery
  split
  · rfl
  · rw [List.append_assoc]

/-- A fragment can only be cut off from the query. -/
theorem cut_withQuery {front query : Bytes} (h : 35 ∉ front)
    (hquery : query.head? ≠ some 35) :
    (cut 35 (withQuery front query)).1 = withQuery front (cut 35 query).1 := by
  cases query with
  | nil =>
      rw [withQuery, if_pos rfl, cut_of_notMem h]
      rfl
  | cons c query =>
      have hc : c ≠ 35 := fun hc => hquery (by rw [hc]; rfl)
      have hcut : (cut 35 (c :: query)).1 = c :: (cut 35 query).1 := by
        rw [cut, if_neg hc]
      have hmark : (63 : UInt8) ≠ 35 := by decide
      rw [hcut, withQuery, withQuery, if_neg (by simp), if_neg (by simp),
        cut_append_left h, cut, if_neg hmark, hcut]

theorem parseRaw_base {base route query : Bytes} {u : URL} (hbase : IsBase base)
    (hroute : Plain route)
    (h : parseRaw parseAuthority (base ++ withQuery route query) false = .ok u) :
    ∃ scheme host,
      u = { scheme := scheme, host := host, path := route, rawQuery := query } := by
  have hctl := any_isControl_of_parseRaw parseAuthority h
  obtain ⟨scheme, authority, rfl, hscheme, hslash, hmark, -⟩ := hbase
  have hstar : (scheme ++ 58 :: 47 :: 47 :: authority) ++ withQuery route query ≠
      [42] := by
    intro heq
    have hlen := congrArg List.length heq
    simp at hlen
    omega
  have hshape : (scheme ++ 58 :: 47 :: 47 :: authority) ++ withQuery route query =
      scheme ++ 58 :: withQuery (47 :: 47 :: (authority ++ route)) query := by
    rw [List.append_assoc, List.cons_append, append_withQuery]
    rfl
  have hfront : 63 ∉ 47 :: 47 :: (authority ++ route) := by
    simp [hmark, hroute.query]
  rw [hshape] at h hctl hstar
  simp only [parseRaw, hctl, Bool.false_eq_true, if_false, and_false, hstar,
    getScheme_append hscheme] at h
  change parseHierarchy parseAuthority
    { scheme := toLower scheme
      forceQuery := (splitQuery (withQuery _ query)).2.1
      rawQuery := (splitQuery (withQuery _ query)).2.2 } false
    (splitQuery (withQuery _ query)).1 = .ok u at h
  rw [splitQuery_withQuery hfront] at h
  have hlower : toLower scheme ≠ [] := by
    simpa [toLower] using hscheme.ne_nil
  obtain ⟨host, rfl⟩ :=
    parseHierarchy_authority parseAuthority hlower hslash hroute h
  exact ⟨toLower scheme, host, rfl⟩

theorem parseRaw_of_parse {raw : Bytes} {u : URL}
    (h : parse parseAuthority raw = .ok u) :
    ∃ u₀ fragment, parseRaw parseAuthority (cut 35 raw).1 false = .ok u₀ ∧
      u = { u₀ with fragment := fragment } := by
  unfold parse at h
  cases hraw : parseRaw parseAuthority (cut 35 raw).1 false with
  | error err =>
      rw [hraw] at h
      cases h
  | ok u₀ =>
      simp only [hraw, bind, Except.bind] at h
      split at h
      · exact ⟨u₀, u₀.fragment, rfl, (Except.ok.inj h).symm⟩
      · split at h
        · cases h
        · exact ⟨u₀, _, rfl, (Except.ok.inj h).symm⟩

theorem requestURI_plain {route : Bytes} (hroute : Plain route)
    (scheme host query fragment : Bytes) :
    requestURI
        { scheme := scheme
          host := host
          path := route
          rawQuery := query
          fragment := fragment } = withQuery route query := by
  obtain ⟨tail, rfl⟩ := exists_cons_of_plain hroute
  have hstar : (47 : UInt8) :: tail ≠ [42] := by simp
  by_cases hnil : query = []
  · simp [requestURI, escapedPath, withQuery, hnil, hroute.escape, hstar]
  · simp [requestURI, escapedPath, withQuery, hnil, hroute.escape, hstar]

/-- What the client sends for a route of its server: the query may lose a
fragment. -/
theorem requestURI_of_parse {base route query : Bytes} {u : URL}
    (hbase : IsBase base) (hroute : Plain route)
    (hquery : query.head? ≠ some 35)
    (h : parse parseAuthority (base ++ withQuery route query) = .ok u) :
    u.requestURI = withQuery route (cut 35 query).1 ∧
      (withQuery route (cut 35 query).1).any isControl = false := by
  have hhash : 35 ∉ base ++ route := by
    obtain ⟨-, -, -, -, -, -, hhash⟩ := hbase
    simp [hhash, hroute.fragment]
  obtain ⟨u₀, fragment, hraw, rfl⟩ := parseRaw_of_parse parseAuthority h
  rw [append_withQuery, cut_withQuery hhash hquery, ← append_withQuery] at hraw
  have hctl := any_isControl_of_parseRaw parseAuthority hraw
  obtain ⟨scheme, host, rfl⟩ := parseRaw_base parseAuthority hbase hroute hraw
  rw [List.any_append, Bool.or_eq_false_iff] at hctl
  exact ⟨requestURI_plain hroute scheme host _ fragment, hctl.2⟩

theorem parseRequestURI_withQuery {route query : Bytes} (hroute : Plain route)
    (hctl : (withQuery route query).any isControl = false) :
    parseRequestURI parseAuthority (withQuery route query) =
      .ok { path := route, rawQuery := query } := by
  have hhead : ∃ tail, withQuery route query = 47 :: tail := by
    obtain ⟨tail, rfl⟩ := exists_cons_of_plain hroute
    unfold withQuery
    split
    · exact ⟨tail, rfl⟩
    · exact ⟨tail ++ 63 :: query, rfl⟩
  have hscheme : getScheme (withQuery route query) =
      .ok ([], withQuery route query) := by
    obtain ⟨tail, htail⟩ := hhead
    have hslash : isLetter 47 = false ∧ isDigit 47 = false := by decide
    rw [htail, getScheme, getSchemeFrom]
    simp [hslash.1, hslash.2]
  have hshort : withQuery route query ≠ [] ∧ withQuery route query ≠ [42] := by
    obtain ⟨tail, htail⟩ := hhead
    rw [htail]
    simp
  simp only [parseRequestURI, parseRaw, hctl, Bool.false_eq_true, if_false,
    hshort.1, hshort.2, false_and, hscheme]
  change parseHierarchy parseAuthority
    { scheme := []
      forceQuery := (splitQuery (withQuery route query)).2.1
      rawQuery := (splitQuery (withQuery route query)).2.2 } true
    (splitQuery (withQuery route query)).1 = _
  rw [splitQuery_withQuery hroute.query, parseHierarchy_request _ _ rfl hroute]

/-- A request for a plain route of a server arrives with the route as its path,
whatever the query is. -/
theorem path_of_request {base route query : Bytes} {u : URL} (hbase : IsBase base)
    (hroute : Plain route) (hquery : query.head? ≠ some 35)
    (h : parse parseAuthority (base ++ withQuery route query) = .ok u) :
    ∃ u', parseRequestURI parseAuthority u.requestURI = .ok u' ∧
      u'.path = route := by
  obtain ⟨huri, hctl⟩ := requestURI_of_parse parseAuthority hbase hroute hquery h
  rw [huri]
  exact ⟨_, parseRequestURI_withQuery parseAuthority hroute hctl, rfl⟩

end URL

end Net

end Gretun
