import Delonix.Ingress.Config
import Delonix.Ingress.RequestHeaders
import Delonix.Library.Collections
import Delonix.Library.Utf8
import Mathlib.Data.List.Nodup
import Mathlib.Data.Prod.Lex

/-! The route a request takes. Routes with a host of their own come before those for any host, and
among these the one with the longest path.
-/

namespace Delonix.Ingress

open Delonix.Library
open Delonix.Library.Greatest
open Delonix.Library.Text
open Delonix.Library.Utf8

/-- A path under another one, which ends where a segment does. The byte that follows is a slash. -/
def pathPrefixMatches (path start : List Char) : Bool :=
  if start.isPrefixOf path then
    start.getLast? == some '/' || (encode path).length == (encode start).length
      || (encode path)[(encode start).length]? == some 47
  else false

def routeKey (r : Route) : ℕ ×ₗ ℕ :=
  toLex (if r.host = "" then 0 else 1, (encode r.path.toList).length)

/-- The best route for a host and a path. -/
def pickRoute (routes : List Route) (host path : List Char) : Option Route :=
  lastMax routeKey <| routes.filter fun r =>
    (r.host == "" || r.host.toList == host) && pathPrefixMatches path r.path.toList

/-- A path that is another one up to the end of a segment. -/
def AtBoundary (start path : List Char) : Prop :=
  ∃ rest, path = start ++ rest ∧ (start.getLast? = some '/' ∨ rest = [] ∨ rest.head? = some '/')

/-- Host names are the same in capitals and in small letters. -/
def SameName (a b : List Char) : Prop := a.map Char.toLower = b.map Char.toLower

/-- The host a `Host` header asks for: without the port, which follows an address in brackets and
the first colon of everything else.
-/
def requestedName (value : List Char) : List Char :=
  match value with
  | '[' :: rest =>
      match splitOnce ']' rest with
      | some (literal, _) => '[' :: literal ++ [']']
      | none => value
  | _ => value.takeWhile (· ≠ ':')

structure Fits (name path : List Char) (r : Route) : Prop where
  host : r.host = "" ∨ SameName r.host.toList name
  path : AtBoundary r.path.toList path

/-- A route that fits, and none that fits is more specific. -/
structure Best (routes : List Route) (name path : List Char) (r : Route) : Prop where
  member : r ∈ routes
  fits : Fits name path r
  specific : ∀ other ∈ routes, Fits name path other → other.host ≠ "" → r.host ≠ ""
  longest : ∀ other ∈ routes, Fits name path other → (other.host = "" ↔ r.host = "") →
    other.path.toList.length ≤ r.path.toList.length

def RightAnswer (routes : List Route) (name path : List Char) : Option Route → Prop
  | some r => Best routes name path r
  | none => ∀ r ∈ routes, ¬ Fits name path r

/-- The answer to a request is the right one for the host that its header asks for, in whatever
order the routes are.
-/
def PicksRight (routes : List Route) (headers : HeaderMap) (uriHost : Option (List Char))
    (value : HeaderValue) (path : List Char)
    : Prop :=
  RightAnswer routes (requestedName (value.map asChar)) path
      (pickRoute routes (reqHost headers uriHost) path)
    ∧ ∀ others : List Route, others.Perm routes →
        pickRoute others (reqHost headers uriHost) path
          = pickRoute routes (reqHost headers uriHost) path

/-- What a `Host` header says up to its first colon; one that is not visible says nothing, and the
request's target may say it.
-/
def written (value : HeaderValue) (uriHost : Option (List Char)) : List Char :=
  (((toStr value).or uriHost).getD []).takeWhile (· ≠ ':')

/-- The routes for the host asked for are spelled like the header: every route spelled so is for
this host, and each route for it whose path fits has one spelled so with a path as long.
-/
structure SpelledAsAsked (routes : List Route) (spelling name path : List Char) : Prop where
  own : ∀ r ∈ routes, r.host ≠ "" → r.host.toList = spelling → AtBoundary r.path.toList path →
    SameName spelling name
  found : ∀ r ∈ routes, r.host ≠ "" → SameName r.host.toList name →
    AtBoundary r.path.toList path → ∃ other ∈ routes, other.host ≠ ""
      ∧ other.host.toList = spelling ∧ AtBoundary other.path.toList path
      ∧ r.path.toList.length ≤ other.path.toList.length

/-- The bytes after a text begin with a slash exactly where the characters do. -/
theorem head_encode_slash (rest : List Char)
    : (encode rest).head? = some 47 ↔ rest.head? = some '/' := by
  cases rest with
  | nil => simp
  | cons c later =>
      obtain ⟨lead, more, shape, -, -, above⟩ := encodeChar_shape c
      rw [encode_cons, shape, List.cons_append, List.head?_cons, List.head?_cons]
      simp only [Option.some.injEq]
      by_cases ascii : c.toNat < 128
      · rw [encodeChar_ascii ascii] at shape
        obtain ⟨rfl, -⟩ := List.cons.inj shape
        constructor
        · intro same
          have value : (UInt8.ofNat c.toNat).toNat = 47 := by rw [same]; rfl
          rw [toNat_byte (by omega)] at value
          exact Char.toNat_inj.mp value
        · rintro rfl
          rfl
      · have high := above (by omega)
        constructor
        · intro same
          rw [same] at high
          exact absurd high (by decide)
        · rintro rfl
          exact absurd (by decide) ascii

theorem pathPrefixMatches_iff {path start : List Char}
    : pathPrefixMatches path start = true ↔ AtBoundary start path := by
  rw [pathPrefixMatches]
  by_cases isPrefix : start <+: path
  · obtain ⟨rest, rfl⟩ := isPrefix
    have under : start.isPrefixOf (start ++ rest) = true :=
      List.isPrefixOf_iff_prefix.mpr (List.prefix_append start rest)
    have whole : (encode (start ++ rest)).length = (encode start).length ↔ rest = [] := by
      rw [encode_append, List.length_append, Nat.add_eq_left, List.length_eq_zero_iff,
        encode_eq_nil_iff]
    have next : (encode (start ++ rest))[(encode start).length]? = (encode rest).head? := by
      rw [encode_append, List.getElem?_append_right (Nat.le_refl _), Nat.sub_self,
        List.head?_eq_getElem?]
    simp only [under, ↓reduceIte, Bool.or_eq_true, beq_iff_eq, next, head_encode_slash, whole,
      or_assoc]
    constructor
    · intro ends
      exact ⟨rest, rfl, ends⟩
    · intro boundary
      obtain ⟨same, cut, ends⟩ := boundary
      rwa [List.append_cancel_left cut]
  · have other : start.isPrefixOf path = false := by
      rw [Bool.eq_false_iff]
      exact fun under => isPrefix (List.isPrefixOf_iff_prefix.mp under)
    simp only [other, Bool.false_eq_true, ↓reduceIte, false_iff]
    intro boundary
    obtain ⟨rest, rfl, -⟩ := boundary
    exact isPrefix (List.prefix_append start rest)

/-- Of two beginnings of a path the longer one has more bytes. -/
theorem length_le_iff_of_boundary {path first second : List Char} (left : AtBoundary first path)
    (right : AtBoundary second path)
    : (encode first).length ≤ (encode second).length ↔ first.length ≤ second.length := by
  obtain ⟨rest, is, -⟩ := left
  obtain ⟨other, same, -⟩ := right
  have firstInside : first <+: path := ⟨rest, is.symm⟩
  have secondInside : second <+: path := ⟨other, same.symm⟩
  rcases Nat.lt_trichotomy first.length second.length with less | equal | more
  · have bytes := length_encode_lt
      (List.prefix_of_prefix_length_le firstInside secondInside less.le) less
    exact iff_of_true bytes.le less.le
  · have eq : first = second :=
      (List.prefix_of_prefix_length_le firstInside secondInside equal.le).eq_of_length equal
    rw [eq]
    exact iff_of_true (Nat.le_refl _) (Nat.le_refl _)
  · have bytes := length_encode_lt
      (List.prefix_of_prefix_length_le secondInside firstInside more.le) more
    exact iff_of_false (Nat.not_le.mpr bytes) (Nat.not_le.mpr more)

/-- The routes among which the proxy picks. -/
structure Candidate (routes : List Route) (spelling path : List Char) (r : Route) : Prop where
  member : r ∈ routes
  host : r.host = "" ∨ r.host.toList = spelling
  path : AtBoundary r.path.toList path

variable {routes : List Route} {spelling name path : List Char} {r other : Route}

theorem mem_candidates_iff
    : r ∈ routes.filter (fun r =>
        (r.host == "" || r.host.toList == spelling) && pathPrefixMatches path r.path.toList)
      ↔ Candidate routes spelling path r := by
  rw [List.mem_filter, Bool.and_eq_true, Bool.or_eq_true, beq_iff_eq, beq_iff_eq,
    pathPrefixMatches_iff]
  constructor
  · intro is
    exact ⟨is.1, is.2.1, is.2.2⟩
  · intro candidate
    exact ⟨candidate.member, candidate.host, candidate.path⟩

theorem candidate_of_pickRoute (picked : pickRoute routes spelling path = some r)
    : Candidate routes spelling path r :=
  mem_candidates_iff.mp (mem_of_lastMax picked)

theorem not_candidate_of_pickRoute (picked : pickRoute routes spelling path = none)
    : ¬ Candidate routes spelling path r := by
  intro candidate
  have member := mem_candidates_iff.mpr candidate
  rw [lastMax_eq_none_iff.mp picked] at member
  exact List.not_mem_nil member

theorem routeKey_le_iff
    : routeKey other ≤ routeKey r
      ↔ (other.host = "" ∧ r.host ≠ "")
        ∨ (other.host = "" ↔ r.host = "")
          ∧ (encode other.path.toList).length ≤ (encode r.path.toList).length := by
  rw [routeKey, routeKey, Prod.Lex.toLex_le_toLex]
  by_cases otherAny : other.host = ""
  · by_cases any : r.host = ""
    · simp [otherAny, any]
    · simp [otherAny, any]
  · by_cases any : r.host = ""
    · simp [otherAny, any]
    · simp [otherAny, any]

/-- No candidate is more specific than the one that is picked. -/
theorem le_of_pickRoute (picked : pickRoute routes spelling path = some r)
    (candidate : Candidate routes spelling path other)
    : (other.host ≠ "" → r.host ≠ "")
      ∧ ((other.host = "" ↔ r.host = "") → other.path.toList.length ≤ r.path.toList.length) := by
  have below := le_of_lastMax picked (mem_candidates_iff.mpr candidate)
  have boundary := (candidate_of_pickRoute picked).path
  rw [routeKey_le_iff, length_le_iff_of_boundary candidate.path boundary] at below
  rcases below with higher | level
  · refine ⟨fun own => absurd higher.1 own, fun alike => ?_⟩
    exact absurd (alike.mp higher.1) higher.2
  · exact ⟨fun own any => own (level.1.mpr any), fun _ => level.2⟩

/-- With no pair of host and path twice, no two candidates are as specific. -/
theorem candidate_unique (distinct : (routes.map fun r => (r.host, r.path)).Nodup)
    (left : Candidate routes spelling path r) (right : Candidate routes spelling path other)
    (same : routeKey r = routeKey other)
    : r = other := by
  have below := routeKey_le_iff.mp same.le
  have above := routeKey_le_iff.mp same.ge
  rw [length_le_iff_of_boundary left.path right.path] at below
  rw [length_le_iff_of_boundary right.path left.path] at above
  have alike : (r.host = "" ↔ other.host = "") := by
    rcases below with higher | level
    · rcases above with lower | level
      · exact absurd higher.1 lower.2
      · exact level.1.symm
    · exact level.1
  have level : r.path.toList.length = other.path.toList.length := by
    rcases below with higher | low
    · exact absurd (alike.mp higher.1) higher.2
    · rcases above with lower | high
      · exact absurd (alike.mpr lower.1) lower.2
      · exact Nat.le_antisymm low.2 high.2
  have samePath : r.path = other.path := by
    obtain ⟨rest, is, -⟩ := left.path
    obtain ⟨more, isToo, -⟩ := right.path
    rw [← String.toList_inj]
    exact (List.prefix_of_prefix_length_le ⟨rest, is.symm⟩ ⟨more, isToo.symm⟩
      level.le).eq_of_length level
  have sameHost : r.host = other.host := by
    rcases left.host with any | own
    · rw [any, alike.mp any]
    · rcases right.host with any | ownToo
      · rw [any, alike.mpr any]
      · rw [← String.toList_inj, own, ownToo]
  exact List.inj_on_of_nodup_map distinct left.member right.member (by rw [sameHost, samePath])

theorem pickRoute_perm (distinct : (routes.map fun r => (r.host, r.path)).Nodup)
    {others : List Route} (perm : others.Perm routes)
    : pickRoute others spelling path = pickRoute routes spelling path := by
  refine lastMax_perm (perm.filter _) ?_
  intro a inA b inB same
  exact candidate_unique distinct (mem_candidates_iff.mp inA) (mem_candidates_iff.mp inB) same

theorem rightAnswer_of_spelled (spelled : SpelledAsAsked routes spelling name path)
    : RightAnswer routes name path (pickRoute routes spelling path) := by
  -- a route for the host asked for has a candidate with a host that is at least as long
  have instead : ∀ other ∈ routes, Fits name path other → other.host ≠ "" →
      ∃ candidate, Candidate routes spelling path candidate ∧ candidate.host ≠ ""
        ∧ other.path.toList.length ≤ candidate.path.toList.length := by
    intro other member fits own
    have asked := fits.host.resolve_left own
    obtain ⟨found, inRoutes, foundOwn, foundHost, foundPath, long⟩ :=
      spelled.found other member own asked fits.path
    exact ⟨found, ⟨inRoutes, .inr foundHost, foundPath⟩, foundOwn, long⟩
  cases picked : pickRoute routes spelling path with
  | none =>
      intro r member fits
      by_cases any : r.host = ""
      · exact not_candidate_of_pickRoute picked ⟨member, .inl any, fits.path⟩
      · obtain ⟨candidate, is, -⟩ := instead r member fits any
        exact not_candidate_of_pickRoute picked is
  | some r =>
      have candidate := candidate_of_pickRoute picked
      refine ⟨candidate.member, ⟨?_, candidate.path⟩, ?_, ?_⟩
      · by_cases any : r.host = ""
        · exact .inl any
        · have written := candidate.host.resolve_left any
          have same := spelled.own r candidate.member any written candidate.path
          exact .inr (written ▸ same)
      · intro other member fits own
        obtain ⟨found, isCandidate, foundOwn, -⟩ := instead other member fits own
        exact (le_of_pickRoute picked isCandidate).1 foundOwn
      · intro other member fits alike
        by_cases any : other.host = ""
        · exact (le_of_pickRoute picked ⟨member, .inl any, fits.path⟩).2 alike
        · obtain ⟨found, isCandidate, foundOwn, long⟩ := instead other member fits any
          have own : r.host ≠ "" := fun isAny => any (alike.mpr isAny)
          exact long.trans ((le_of_pickRoute picked isCandidate).2 (iff_of_false foundOwn own))

theorem spelled_of_rightAnswer
    (right : RightAnswer routes name path (pickRoute routes spelling path))
    : SpelledAsAsked routes spelling name path := by
  constructor
  · intro r member own isSpelled boundary
    have candidate : Candidate routes spelling path r := ⟨member, .inr isSpelled, boundary⟩
    cases picked : pickRoute routes spelling path with
    | none => exact absurd candidate (not_candidate_of_pickRoute picked)
    | some chosen =>
        rw [picked] at right
        have chosenOwn := (le_of_pickRoute picked candidate).1 own
        have asked := right.fits.host.resolve_left chosenOwn
        rwa [(candidate_of_pickRoute picked).host.resolve_left chosenOwn] at asked
  · intro r member own asked boundary
    have fits : Fits name path r := ⟨.inr asked, boundary⟩
    cases picked : pickRoute routes spelling path with
    | none =>
        rw [picked] at right
        exact absurd fits (right r member)
    | some chosen =>
        rw [picked] at right
        have chosenOwn := right.specific r member fits own
        have candidate := candidate_of_pickRoute picked
        exact ⟨chosen, candidate.member, chosenOwn, candidate.host.resolve_left chosenOwn,
          candidate.path, right.longest r member fits (iff_of_false own chosenOwn)⟩

/-- The proxy picks the right route exactly where the routes for the host asked for are spelled as
the header spells it.
-/
theorem picksRight_iff (distinct : (routes.map fun r => (r.host, r.path)).Nodup)
    {headers : HeaderMap} {value : HeaderValue} (asked : headers.get host = some value)
    (uriHost : Option (List Char)) (path : List Char)
    : PicksRight routes headers uriHost value path
      ↔ SpelledAsAsked routes (written value uriHost) (requestedName (value.map asChar)) path := by
  have spelling : reqHost headers uriHost = written value uriHost := by
    rw [reqHost, asked]
    rfl
  rw [PicksRight, spelling]
  constructor
  · intro right
    exact spelled_of_rightAnswer right.1
  · intro spelled
    exact ⟨rightAnswer_of_spelled spelled, fun others perm => pickRoute_perm distinct perm⟩

def shopRoute : Route := ⟨"loja.ex", "/api", "10.0.0.2:80", "HTTPRoute/loja"⟩

def askingFor (text : String) : HeaderMap := [(host, asciiBytes text.toList)]

def ordersRoute : Route := ⟨"loja.ex", "/api/orders", "10.0.0.3:80", "HTTPRoute/orders"⟩

/-- One for any host whose path is longer still, and one for another host. -/
def shopRoutes : List Route := [
  ⟨"", "/api/orders/7", "10.0.0.4:80", "HTTPRoute/any"⟩,
  shopRoute,
  ordersRoute,
  ⟨"blog.ex", "/api/orders/7", "10.0.0.5:80", "HTTPRoute/blog"⟩
]

theorem picksRight_shop
    : PicksRight shopRoutes (askingFor "loja.ex:8080") none (asciiBytes "loja.ex:8080".toList)
        "/api/orders/7".toList
      ∧ pickRoute shopRoutes.reverse (reqHost (askingFor "loja.ex:8080") none)
        "/api/orders/7".toList = some ordersRoute := by
  have right : PicksRight shopRoutes (askingFor "loja.ex:8080") none
      (asciiBytes "loja.ex:8080".toList) "/api/orders/7".toList := by
    refine (picksRight_iff (by decide) rfl none _).mpr ⟨?_, ?_⟩
    · intro r _ _ _ _
      rfl
    · intro r member own asked _
      have boundary : AtBoundary ordersRoute.path.toList "/api/orders/7".toList :=
        ⟨"/7".toList, rfl, .inr (.inr rfl)⟩
      have inside : ordersRoute ∈ shopRoutes := by decide
      refine ⟨ordersRoute, inside, by decide, rfl, boundary, ?_⟩
      simp only [shopRoutes, List.mem_cons, List.not_mem_nil, or_false] at member
      rcases member with rfl | rfl | rfl | rfl
      · exact absurd rfl own
      · decide
      · exact Nat.le_refl _
      · exact absurd asked (by unfold SameName; decide)
  refine ⟨right, (right.2 _ (List.reverse_perm shopRoutes)).trans ?_⟩
  decide

/-- A host in capitals is the same host, and its route is not found. -/
theorem capitals_not_routed : ¬ ∀ (routes : List Route) (headers : HeaderMap) (value : HeaderValue)
    (uriHost : Option (List Char)) (path : List Char),
    (routes.map fun r => (r.host, r.path)).Nodup → headers.get host = some value →
      PicksRight routes headers uriHost value path := by
  intro all
  have right := (all [shopRoute] (askingFor "LOJA.EX") (asciiBytes "LOJA.EX".toList) none
    "/api/x".toList (by decide) rfl).1
  have nothing
      : pickRoute [shopRoute] (reqHost (askingFor "LOJA.EX") none) "/api/x".toList = none := by
    decide
  rw [nothing] at right
  refine right shopRoute List.mem_cons_self ⟨.inr ?_, ?_⟩
  · rfl
  · exact ⟨"/x".toList, rfl, .inr (.inr rfl)⟩

end Delonix.Ingress
