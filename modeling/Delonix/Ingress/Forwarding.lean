import Delonix.Ingress.RequestHeaders
import Delonix.Library.Pieces
import Delonix.Net.IpText

/-! What the proxy tells a backend. The headers that belong to the client's connection are dropped,
among them those that the client names in `Connection`, then the proxy writes its own.
-/

namespace Delonix.Ingress

open Delonix.Library
open Delonix.Library.Bytes
open Delonix.Library.Pieces
open Delonix.Library.Text
open Delonix.Net

def proxyConnection : HeaderName := ⟨"proxy-connection", rfl⟩

def xForwardedFor : HeaderName := ⟨"x-forwarded-for", rfl⟩

def xForwardedProto : HeaderName := ⟨"x-forwarded-proto", rfl⟩

def xForwardedHost : HeaderName := ⟨"x-forwarded-host", rfl⟩

def xRealIp : HeaderName := ⟨"x-real-ip", rfl⟩

def hop : List HeaderName :=
  [connection, ⟨"keep-alive", rfl⟩, ⟨"proxy-authenticate", rfl⟩, ⟨"proxy-authorization", rfl⟩,
    ⟨"te", rfl⟩, ⟨"trailer", rfl⟩, ⟨"transfer-encoding", rfl⟩, ⟨"upgrade", rfl⟩]

/-- The forwarding headers a client may send and a backend may trust. -/
def forwardingHeaders : List HeaderName :=
  [⟨"forwarded", rfl⟩, xForwardedFor, xForwardedProto, xForwardedHost,
    ⟨"x-forwarded-port", rfl⟩, xRealIp]

/-- The names that the code reads in the `Connection` headers: a value that is not all visible is
passed by.
-/
def listed (isName : String → Bool) (headers : HeaderMap) : List HeaderName :=
  (headers.getAll connection).flatMap fun value =>
    match toStr value with
    | some text =>
        (text.splitOn ',').filterMap fun token => HeaderName.fromBytes isName (trim token)
    | none => []

def stripHopByHop (isName : String → Bool) (headers : HeaderMap) : HeaderMap :=
  ((headers.removeAll hop).remove proxyConnection).removeAll (listed isName headers)

/-- What the edge saw of the client, in the place of what the client said. -/
def withSeen (headers : HeaderMap) (ip scheme : HeaderValue) : HeaderMap :=
  (((headers.removeAll forwardingHeaders).insert xForwardedFor ip).insert xRealIp ip).insert
    xForwardedProto scheme

/-- Nothing comes out where the peer's text is no header value. -/
def setForwardingHeaders (headers : HeaderMap) (peer : IpAddr) (https : Bool)
    : Option HeaderMap := do
  let asked := headers.get host
  let ip ← fromStr peer.display
  let seen := withSeen headers ip (asciiBytes (if https then "https".toList else "http".toList))
  match asked with
  | some value => some (seen.insert xForwardedHost value)
  | none => some seen

/-- The headers of the request to the backend, as `handle` makes them. -/
def forwarded (isName : String → Bool) (headers : HeaderMap) (peer : IpAddr) (https : Bool)
    : Option HeaderMap :=
  setForwardingHeaders (stripHopByHop isName headers) peer https

/-- The blanks that may stand around a token of a header. -/
def trimBlanks (s : List Char) : List Char :=
  let blank := fun c : Char => c == ' ' || c == '\t'
  (s.dropWhile blank).rdropWhile blank

/-- The headers that one `Connection` value names, whatever else is in it. -/
def named (isName : String → Bool) (value : HeaderValue) : List HeaderName :=
  ((value.map asChar).splitOn ',').filterMap fun token =>
    HeaderName.fromBytes isName (trimBlanks token)

/-- What the client named or wrote stays behind and the edge says what it saw. The headers it
writes itself are in the names of no client, also where the client named them.
-/
structure FromEdge (isName : String → Bool) (request : HeaderMap) (peer : IpAddr) (https : Bool)
    (sent : HeaderMap)
    : Prop where
  hop : ∀ name ∈ hop ++ [proxyConnection], sent.getAll name = []
  named : ∀ value ∈ request.getAll connection, ∀ name ∈ named isName value, name ≠ host →
    name ∉ forwardingHeaders → sent.getAll name = []
  dropped : ∀ name ∈ forwardingHeaders,
    name ∉ [xForwardedFor, xForwardedProto, xForwardedHost, xRealIp] → sent.getAll name = []
  address : sent.getAll xForwardedFor = [asciiBytes peer.display]
    ∧ sent.getAll xRealIp = [asciiBytes peer.display]
  scheme : sent.getAll xForwardedProto
    = [asciiBytes (if https then "https".toList else "http".toList)]
  asked : sent.getAll xForwardedHost = request.getAll host
  kept : sent.getAll host = request.getAll host
  chosen : ∀ uriHost, reqHost sent uriHost = reqHost request uriHost

/-- The headers a client names without a part in what follows: `Host` is not among those the code
reads, and one named only in a value it passes by is not sent, or is dropped all the same.
-/
structure NamesHarmless (isName : String → Bool) (request : HeaderMap) : Prop where
  host : host ∉ listed isName request
  passedBy : ∀ value ∈ request.getAll connection, toStr value = none →
    ∀ name ∈ named isName value, name ≠ Ingress.host →
      name ∈ hop ++ [proxyConnection] ∨ name ∈ forwardingHeaders ∨ name ∈ listed isName request
        ∨ request.getAll name = []

theorem getAll_stripHopByHop (isName : String → Bool) (headers : HeaderMap) (name : HeaderName)
    : (stripHopByHop isName headers).getAll name
      = if name ∈ hop ++ [proxyConnection] ∨ name ∈ listed isName headers then []
        else headers.getAll name := by
  rw [stripHopByHop, Multimap.getAll_removeAll, Multimap.getAll_remove, Multimap.getAll_removeAll]
  simp only [List.mem_append, List.mem_singleton]
  by_cases inListed : name ∈ listed isName headers
  · simp [inListed]
  · by_cases isProxy : name = proxyConnection
    · simp [isProxy]
    · simp [inListed, isProxy]

theorem fromStr_display (peer : IpAddr)
    : fromStr peer.display = some (asciiBytes peer.display) := by
  rw [fromStr, if_pos]
  rw [List.all_eq_true]
  intro c member
  have shown := shown_display member
  have low : 32 ≤ c.toNat := Nat.le_of_succ_le shown.1
  simp [low, shown.2]

section WithSeen

variable (headers : HeaderMap) (ip scheme : HeaderValue)

theorem getAll_withSeen_of_ne {name : HeaderName}
    (other : name ∉ [xForwardedFor, xForwardedProto, xRealIp])
    : (withSeen headers ip scheme).getAll name
      = if name ∈ forwardingHeaders then [] else headers.getAll name := by
  simp only [List.mem_cons, List.not_mem_nil, or_false, not_or] at other
  rw [withSeen, Multimap.getAll_insert_of_ne _ _ other.2.1,
    Multimap.getAll_insert_of_ne _ _ other.2.2, Multimap.getAll_insert_of_ne _ _ other.1,
    Multimap.getAll_removeAll]

theorem getAll_withSeen_for : (withSeen headers ip scheme).getAll xForwardedFor = [ip] := by
  rw [withSeen, Multimap.getAll_insert_of_ne _ _ (by decide),
    Multimap.getAll_insert_of_ne _ _ (by decide), Multimap.getAll_insert_self]

theorem getAll_withSeen_realIp : (withSeen headers ip scheme).getAll xRealIp = [ip] := by
  rw [withSeen, Multimap.getAll_insert_of_ne _ _ (by decide), Multimap.getAll_insert_self]

theorem getAll_withSeen_proto : (withSeen headers ip scheme).getAll xForwardedProto = [scheme] :=
  Multimap.getAll_insert_self _ _ _

end WithSeen

/-- What the edge made of the headers: its own, nothing under the other forwarding headers, and
all else as it was.
-/
structure SeenByEdge (headers : HeaderMap) (peer : IpAddr) (https : Bool) (sent : HeaderMap)
    : Prop where
  kept : ∀ name, name ∉ forwardingHeaders → sent.getAll name = headers.getAll name
  dropped : ∀ name ∈ forwardingHeaders,
    name ∉ [xForwardedFor, xForwardedProto, xForwardedHost, xRealIp] → sent.getAll name = []
  address : sent.getAll xForwardedFor = [asciiBytes peer.display]
    ∧ sent.getAll xRealIp = [asciiBytes peer.display]
  scheme : sent.getAll xForwardedProto
    = [asciiBytes (if https then "https".toList else "http".toList)]
  asked : sent.getAll xForwardedHost = (headers.get host).toList

/-- Over the headers the edge set, the host asked for is one more, or there is none. -/
theorem setForwardingHeaders_eq (headers : HeaderMap) (peer : IpAddr) (https : Bool)
    : ∃ sent, setForwardingHeaders headers peer https = some sent
        ∧ (∀ name, name ≠ xForwardedHost → sent.getAll name
            = (withSeen headers (asciiBytes peer.display)
                (asciiBytes (if https then "https".toList else "http".toList))).getAll name)
        ∧ sent.getAll xForwardedHost = (headers.get host).toList := by
  cases first : headers.get host with
  | some value =>
      refine ⟨_, by rw [setForwardingHeaders, fromStr_display, first]; rfl, ?_, ?_⟩
      · intro name other
        exact Multimap.getAll_insert_of_ne _ _ other
      · exact Multimap.getAll_insert_self _ _ _
  | none =>
      refine ⟨_, by rw [setForwardingHeaders, fromStr_display, first]; rfl, fun _ _ => rfl, ?_⟩
      rw [getAll_withSeen_of_ne _ _ _ (by decide), if_pos (by decide)]
      rfl

theorem setForwardingHeaders_spec (headers : HeaderMap) (peer : IpAddr) (https : Bool)
    : ∃ sent, setForwardingHeaders headers peer https = some sent
        ∧ SeenByEdge headers peer https sent := by
  obtain ⟨sent, ran, same, asked⟩ := setForwardingHeaders_eq headers peer https
  refine ⟨sent, ran, ?_, ?_, ?_, ?_, asked⟩
  · intro name other
    have notHost : name ≠ xForwardedHost := by
      intro is
      exact other (is ▸ by decide)
    have notSeen : name ∉ [xForwardedFor, xForwardedProto, xRealIp] := by
      intro member
      have within : [xForwardedFor, xForwardedProto, xRealIp] ⊆ forwardingHeaders := by decide
      exact other (within member)
    rw [same name notHost, getAll_withSeen_of_ne _ _ _ notSeen, if_neg other]
  · intro name forwarding notSet
    simp only [List.mem_cons, List.not_mem_nil, or_false, not_or] at notSet
    have notSeen : name ∉ [xForwardedFor, xForwardedProto, xRealIp] := by simp [notSet]
    rw [same name notSet.2.2.1, getAll_withSeen_of_ne _ _ _ notSeen, if_pos forwarding]
  · rw [same _ (by decide), same _ (by decide), getAll_withSeen_for, getAll_withSeen_realIp]
    exact ⟨rfl, rfl⟩
  · rw [same _ (by decide), getAll_withSeen_proto]

theorem dropWhile_congr {p q : Char → Bool} {s : List Char} (same : ∀ c ∈ s, p c = q c)
    : s.dropWhile p = s.dropWhile q := by
  induction s with
  | nil => rfl
  | cons c rest ih =>
      rw [List.dropWhile_cons, List.dropWhile_cons, same c List.mem_cons_self,
        ih fun c later => same c (List.mem_cons_of_mem _ later)]

theorem beq_toNat (c d : Char) : (c == d) = (c.toNat == d.toNat) := by
  rw [Bool.eq_iff_iff, beq_iff_eq, beq_iff_eq, Char.toNat_inj]

/-- Among visible characters the blanks are all that is trimmed. -/
theorem trim_of_visible {s : List Char}
    (visible : ∀ c ∈ s, (32 ≤ c.toNat ∧ c.toNat < 127) ∨ c.toNat = 9)
    : trim s = trimBlanks s := by
  have same : ∀ c ∈ s, isWhitespace c = (c == ' ' || c == '\t') := by
    intro c member
    have in_range := visible c member
    have space : (c == ' ') = (c.toNat == 32) := beq_toNat c ' '
    have tab : (c == '\t') = (c.toNat == 9) := beq_toNat c '\t'
    rw [space, tab, isWhitespace, Bool.eq_iff_iff]
    simp only [Bool.or_eq_true, Bool.and_eq_true, decide_eq_true_eq, beq_iff_eq]
    omega
  rw [trim, trimEnd, trimStart, trimBlanks, dropWhile_congr same]
  rw [List.rdropWhile, List.rdropWhile, dropWhile_congr]
  intro c member
  exact same c ((List.dropWhile_sublist _).subset (List.mem_reverse.mp member))

theorem visible_of_toStr {value : HeaderValue} {text : List Char} (read : toStr value = some text)
    : text = value.map asChar
      ∧ ∀ c ∈ text, (32 ≤ c.toNat ∧ c.toNat < 127) ∨ c.toNat = 9 := by
  rw [toStr] at read
  cases all : value.all isVisibleAscii with
  | false => simp [all] at read
  | true =>
      simp only [all, ↓reduceIte, Option.some.injEq] at read
      refine ⟨read.symm, ?_⟩
      intro c member
      rw [← read] at member
      obtain ⟨b, held, rfl⟩ := List.mem_map.mp member
      have shown := List.all_eq_true.mp all b held
      simpa [isVisibleAscii, toNat_asChar] using shown

/-- Of a visible value the code reads the names that are in it. -/
theorem named_of_visible (isName : String → Bool) {value : HeaderValue} {text : List Char}
    (read : toStr value = some text)
    : named isName value
      = (text.splitOn ',').filterMap fun token => HeaderName.fromBytes isName (trim token) := by
  obtain ⟨rfl, visible⟩ := visible_of_toStr read
  rw [named]
  apply List.filterMap_congr
  intro token member
  rw [trim_of_visible]
  intro c inToken
  exact visible c (subset_of_mem_splitOn member inToken)

/-- The code reads what the visible values name. -/
theorem mem_listed {isName : String → Bool} {headers : HeaderMap} {name : HeaderName}
    : name ∈ listed isName headers
      ↔ ∃ value ∈ headers.getAll connection, (toStr value).isSome = true
          ∧ name ∈ named isName value := by
  rw [listed, List.mem_flatMap]
  refine exists_congr fun value => and_congr_right fun _ => ?_
  cases read : toStr value with
  | none => simp
  | some text => simp only [Option.isSome_some, true_and, named_of_visible isName read]

theorem getAll_host_stripHopByHop (isName : String → Bool) (request : HeaderMap)
    : (stripHopByHop isName request).getAll host
      = if host ∈ listed isName request then [] else request.getAll host := by
  have notHop : host ∉ hop ++ [proxyConnection] := by decide
  simp only [getAll_stripHopByHop, notHop, false_or]

/-- A request with one `Host` reaches the backend as the edge saw it exactly where the names of
`Connection` are harmless.
-/
theorem forwards_iff {isName : String → Bool} {request : HeaderMap} {value : HeaderValue}
    (one : request.getAll host = [value]) (peer : IpAddr) (https : Bool)
    : (∃ sent, forwarded isName request peer https = some sent
        ∧ FromEdge isName request peer https sent)
      ↔ NamesHarmless isName request := by
  obtain ⟨made, ran, seen⟩ := setForwardingHeaders_spec (stripHopByHop isName request) peer https
  have hostStays : host ∉ forwardingHeaders := by decide
  constructor
  · intro reaches
    obtain ⟨sent, isSent, fromEdge⟩ := reaches
    obtain rfl : made = sent := Option.some.inj (ran.symm.trans isSent)
    constructor
    · intro inListed
      have lost := fromEdge.kept
      rw [seen.kept _ hostStays, getAll_host_stripHopByHop, if_pos inListed, one] at lost
      simp at lost
    · intro other member unread name isNamed notHost
      by_cases inHop : name ∈ hop ++ [proxyConnection]
      · exact .inl inHop
      · by_cases forwarding : name ∈ forwardingHeaders
        · exact .inr (.inl forwarding)
        · by_cases inListed : name ∈ listed isName request
          · exact .inr (.inr (.inl inListed))
          · have gone := fromEdge.named other member name isNamed notHost forwarding
            rw [seen.kept _ forwarding, getAll_stripHopByHop,
              if_neg (not_or.mpr ⟨inHop, inListed⟩)] at gone
            exact .inr (.inr (.inr gone))
  · intro harmless
    have hostKept : (stripHopByHop isName request).getAll host = request.getAll host := by
      rw [getAll_host_stripHopByHop, if_neg harmless.host]
    have hostSent : made.getAll host = request.getAll host := by
      rw [seen.kept _ hostStays, hostKept]
    refine ⟨made, ran, ?_, ?_, seen.dropped, seen.address, seen.scheme, ?_, hostSent, ?_⟩
    · intro name inHop
      have notForwarding : name ∉ forwardingHeaders := by
        have apart : ∀ name ∈ hop ++ [proxyConnection], name ∉ forwardingHeaders := by decide
        exact apart name inHop
      rw [seen.kept _ notForwarding, getAll_stripHopByHop, if_pos (.inl inHop)]
    · intro other member name isNamed notHost notForwarding
      rw [seen.kept _ notForwarding, getAll_stripHopByHop]
      cases read : toStr other with
      | some text =>
          have inListed : name ∈ listed isName request :=
            mem_listed.mpr ⟨other, member, by simp [read], isNamed⟩
          rw [if_pos (.inr inListed)]
      | none =>
          rcases harmless.passedBy other member read name isNamed notHost with
            inHop | forwarding | inListed | gone
          · rw [if_pos (.inl inHop)]
          · exact absurd forwarding notForwarding
          · rw [if_pos (.inr inListed)]
          · rw [gone, ite_self]
    · rw [seen.asked, Multimap.get, hostKept, one]
      rfl
    · intro uriHost
      rw [reqHost, reqHost, Multimap.get, Multimap.get, hostSent]

/-- The characters of header names, of which none is a capital any more. -/
def isToken (name : String) : Bool :=
  name != "" && name.toList.all fun c =>
    ('a' ≤ c && c ≤ 'z') || c.isDigit || c.toNat == 96
      || "!#$%&'*+-.^_|~".toList.contains c

/-- A client that asks for a shop and names a header in `Connection`. -/
def asks (token : String) : HeaderMap :=
  [(host, asciiBytes "shop.example".toList), (connection, asciiBytes token.toList),
    (xForwardedFor, asciiBytes "127.0.0.1".toList)]

theorem forwards_close
    : ∃ sent, forwarded isToken (asks "close") (.v4 0x0a000202) true = some sent
        ∧ FromEdge isToken (asks "close") (.v4 0x0a000202) true sent := by
  refine (forwards_iff rfl _ _).mpr ⟨by decide, ?_⟩
  intro value member unread
  have only : (asks "close").getAll connection = [asciiBytes "close".toList] := rfl
  rw [only, List.mem_singleton] at member
  subst member
  exact absurd unread (by decide)

/-- A client that names `Host` takes the host away from the backend. -/
theorem host_named_away : ¬ ∀ (isName : String → Bool) (request : HeaderMap) (value : HeaderValue),
    request.getAll host = [value] → value.all isVisibleAscii = true → ∀ peer https,
      ∃ sent, forwarded isName request peer https = some sent
        ∧ FromEdge isName request peer https sent := by
  intro all
  obtain ⟨sent, isSent, fromEdge⟩ := all isToken (asks "host") (asciiBytes "shop.example".toList)
    rfl rfl (.v4 0x0a000202) true
  have gone : sent.getAll host = [] := by
    obtain rfl := Option.some.inj isSent
    decide
  have kept := fromEdge.kept
  rw [gone] at kept
  exact absurd kept (by decide)

end Delonix.Ingress
