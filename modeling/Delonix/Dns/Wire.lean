import Delonix.Dns.Index
import Delonix.Spdy.HeaderBlock

/-! Queries and replies of the ingress DNS as bytes. A query comes from any container, so its parser
meets arbitrary bytes; an access outside of them would end the process.
-/

namespace Delonix.Dns

open Delonix.Library.Bytes
open Delonix.Library.Utf8
open Delonix.Net
open Delonix.Spdy (OutOfRange byteAt sliceAt)

-----------------------------------------------------------------------------------------
-- Queries
-----------------------------------------------------------------------------------------

/-- `u16::from_be_bytes` of the two bytes at a position. -/
def shortAt (buf : List Byte) (i : Nat) : Except OutOfRange Nat := do
  let high ← byteAt buf i
  let low ← byteAt buf (i + 1)
  .ok (high.toNat * 256 + low.toNat)

/-- The labels from a position on, behind those that were read, and the position after them. -/
def labels (q : List Byte) (i : Nat) (name : Text) : Except OutOfRange (Option (Text × Nat)) :=
  if _inside : i < q.length then do
    let len ← byteAt q i
    if len = 0 then .ok (some (name, i + 1))
    else if 63 < len.toNat ∨ q.length < i + 1 + len.toNat then .ok none
    else do
      let label ← sliceAt q (i + 1) (i + 1 + len.toNat)
      let name := if name.isEmpty then name else name ++ ['.']
      labels q (i + 1 + len.toNat) (name ++ fromUtf8Lossy label)
  else .ok (some (name, i))
termination_by q.length - i

structure Question where
  name : Text
  qtype : Nat
  /-- The offset just past it. -/
  qend : Nat
deriving DecidableEq

def dnsQuestion (q : List Byte) : Except OutOfRange (Option Question) := do
  match ← labels q 12 [] with
  | none => .ok none
  | some (name, i) =>
      if q.length < i + 4 then .ok none
      else do
        let qtype ← shortAt q i
        .ok (some ⟨name, qtype, i + 4⟩)

-----------------------------------------------------------------------------------------
-- Replies
-----------------------------------------------------------------------------------------

/-- A pointer to the name of the question, the type and the class, the time to live and the length
of an address.
-/
def aRecordHead : List Byte :=
  [0xc0, 0x0c] ++ [0x00, 0x01, 0x00, 0x01] ++ [0x00, 0x00, 0x00, 0x1e] ++ [0x00, 0x04]

def aRecord (ip : Ip) : List Byte := aRecordHead ++ (toBeBytes ip).map UInt8.ofNat

/-- The reply with addresses, of one or of many. -/
def answerReply (q : List Byte) (qend : Nat) (ips : List Ip) : Except OutOfRange (List Byte) := do
  let id ← sliceAt q 0 2
  let question ← sliceAt q 12 qend
  .ok (id ++ [0x81, 0x80] ++ [0x00, 0x01] ++ beBytes 2 ips.length ++ [0x00, 0x00, 0x00, 0x00]
    ++ question ++ ips.flatMap aRecord)

def negativeReply (q : List Byte) (qend : Nat) (rcode : Byte) : Except OutOfRange (List Byte) := do
  let id ← sliceAt q 0 2
  let flags ← byteAt q 2
  let question ← sliceAt q 12 qend
  .ok (id ++ [0x84 ||| (flags &&& 0x01), 0x80 ||| rcode] ++ [0x00, 0x01] ++ [0x00, 0x00]
    ++ [0x00, 0x00, 0x00, 0x00] ++ question)

def qtypeA : Nat := 1

def qtypeAaaa : Nat := 28

def rcodeNoerror : Byte := 0

def rcodeNxdomain : Byte := 3

inductive DnsAction where
  | answer (ip : Ip)
  | noData
  | nxDomain
  | forward
deriving DecidableEq

def dnsActionOwned (qtype : Nat) (ours : Bool) (resolved : Option Ip) : DnsAction :=
  if qtype = qtypeA then
    match resolved with
    | some ip => .answer ip
    | none => if ours then .nxDomain else .forward
  else if resolved.isSome then .noData
  else if ours then .nxDomain
  else .forward

/-- What the node knows of names, for one client. -/
structure Resolver where
  owns : Text → Bool
  multi : Text → Option (List Ip)
  single : Text → Option Ip

/-- What becomes of a query: a reply, or it goes upstream. -/
inductive Handled where
  | reply (bytes : List Byte)
  | upstream
deriving DecidableEq

def perform (q : List Byte) (qend : Nat) : DnsAction → Except OutOfRange Handled
  | .answer ip => return .reply (← answerReply q qend [ip])
  | .noData => return .reply (← negativeReply q qend rcodeNoerror)
  | .nxDomain => return .reply (← negativeReply q qend rcodeNxdomain)
  | .forward => return .upstream

def handleDns (resolver : Resolver) (q : List Byte) : Except OutOfRange Handled := do
  match ← dnsQuestion q with
  | none => .ok .upstream
  | some ⟨name, qtype, qend⟩ =>
      let ours := resolver.owns name
      match if qtype = qtypeA then resolver.multi name else none with
      | some ips => return .reply (← answerReply q qend ips)
      | none =>
          let resolved :=
            if qtype = qtypeA ∨ qtype = qtypeAaaa ∨ ours then resolver.single name else none
          perform q qend (dnsActionOwned qtype ours resolved)

-----------------------------------------------------------------------------------------
-- Reading a response
-----------------------------------------------------------------------------------------

/-- The offset past a name; a name that is not ended leaves the response. -/
def skipName (b : List Byte) (i : Nat) : Except OutOfRange Nat :=
  if _inside : i < b.length then do
    let len ← byteAt b i
    if len = 0 then .ok (i + 1)
    else if len &&& 0xc0 = 0xc0 then .ok (i + 2)
    else skipName b (i + (1 + len.toNat))
  else .ok i
termination_by b.length - i

/-- Past the questions, unless they leave the response. -/
def skipQuestions (b : List Byte) : Nat → Nat → Except OutOfRange (Option Nat)
  | 0, i => .ok (some i)
  | count + 1, i => do
      let i := (← skipName b i) + 4
      if b.length < i then .ok none else skipQuestions b count i

def readAnswers (b : List Byte) : Nat → Nat → Except OutOfRange (List Ip)
  | 0, _ => .ok []
  | count + 1, i => do
      let i ← skipName b i
      if b.length < i + 10 then .ok []
      else do
        let rtype ← shortAt b i
        let rdlen ← shortAt b (i + 8)
        let i := i + 10
        if b.length < i + rdlen then .ok []
        else if rtype = 1 ∧ rdlen = 4 then do
          let first ← byteAt b i
          let second ← byteAt b (i + 1)
          let third ← byteAt b (i + 2)
          let fourth ← byteAt b (i + 3)
          let rest ← readAnswers b count (i + rdlen)
          .ok (fromBeBytes [first.toNat, second.toNat, third.toNat, fourth.toNat] :: rest)
        else readAnswers b count (i + rdlen)

def parseARecords (resp : List Byte) : Except OutOfRange (List Ip) :=
  if resp.length < 12 then .ok []
  else do
    let qd ← shortAt resp 4
    let an ← shortAt resp 6
    match ← skipQuestions resp qd 12 with
    | none => .ok []
    | some i => readAnswers resp an i

-----------------------------------------------------------------------------------------
-- Positions
-----------------------------------------------------------------------------------------

variable {q r : List Byte}

theorem byteAt_inside {i : Nat} (inside : i < q.length) : byteAt q i = .ok (q.getD i 0) := by
  rw [byteAt, List.getD_eq_getElem?_getD, List.getElem?_eq_getElem inside]
  rfl

theorem shortAt_inside {i : Nat} (inside : i + 1 < q.length)
    : shortAt q i = .ok ((q.getD i 0).toNat * 256 + (q.getD (i + 1) 0).toNat) := by
  rw [shortAt, byteAt_inside (by omega), byteAt_inside inside]
  rfl

theorem sliceAt_inside {i j : Nat} (order : i ≤ j) (inside : j ≤ q.length)
    : sliceAt q i j = .ok ((q.drop i).take (j - i)) :=
  if_pos ⟨order, inside⟩

/-- What one turn of the loop over labels does. -/
theorem labels_inside {i : Nat} (inside : i < q.length) (name : Text)
    : labels q i name
      = if q.getD i 0 = 0 then .ok (some (name, i + 1))
        else if 63 < (q.getD i 0).toNat ∨ q.length < i + 1 + (q.getD i 0).toNat then .ok none
        else labels q (i + 1 + (q.getD i 0).toNat)
          ((if name.isEmpty then name else name ++ ['.'])
            ++ fromUtf8Lossy ((q.drop (i + 1)).take (q.getD i 0).toNat)) := by
  rw [labels, dif_pos inside, byteAt_inside inside]
  show (if _ then _ else _) = _
  refine if_congr Iff.rfl rfl ?_
  split
  · rfl
  case isFalse fits =>
    rw [sliceAt_inside (by omega) (by omega), Nat.add_sub_cancel_left]
    rfl

theorem labels_outside {i : Nat} (outside : q.length ≤ i) (name : Text)
    : labels q i name = .ok (some (name, i)) := by
  rw [labels, dif_neg (by omega)]

/-- The loop over labels leaves no access open, and ends inside or where it started. -/
theorem labels_ends (q : List Byte) (i : Nat) (name : Text)
    : labels q i name = .ok none
      ∨ ∃ name' j, labels q i name = .ok (some (name', j)) ∧ i ≤ j ∧ (j ≤ q.length ∨ j = i) := by
  induction left : q.length - i using Nat.strong_induction_on generalizing i name with
  | _ left ih =>
      by_cases inside : i < q.length
      · rw [labels_inside inside]
        split
        · exact .inr ⟨name, i + 1, rfl, by omega, .inl inside⟩
        split
        · exact .inl rfl
        case isFalse fits =>
          rcases ih (q.length - (i + 1 + (q.getD i 0).toNat)) (by omega) _ _ rfl with
            refused | ⟨name', j, is, after, within⟩
          · exact .inl refused
          · exact .inr ⟨name', j, is, by omega, .inl (by omega)⟩
      · exact .inr ⟨name, i, labels_outside (by omega) name, le_refl i, .inr rfl⟩

/-- Two packets that agree between two positions. -/
def Agree (q r : List Byte) (i j : Nat) : Prop :=
  j ≤ q.length ∧ j ≤ r.length ∧ (r.drop i).take (j - i) = (q.drop i).take (j - i)

theorem Agree.getD {i j k : Nat} (agree : Agree q r i j) (after : i ≤ k) (before : k < j)
    : r.getD k 0 = q.getD k 0 := by
  obtain ⟨-, -, same⟩ := agree
  have at_ := congrArg (·.getD (k - i) 0) same
  have inside : k - i < j - i := by omega
  simpa [List.getElem?_take, inside, List.getElem?_drop, Nat.add_sub_cancel' after] using at_

theorem Agree.slice {i j k l : Nat} (agree : Agree q r i j) (after : i ≤ k) (before : l ≤ j)
    : (r.drop k).take (l - k) = (q.drop k).take (l - k) := by
  obtain ⟨-, -, same⟩ := agree
  have cut := congrArg (fun bytes => (bytes.drop (k - i)).take (l - k)) same
  simp only [List.drop_take, List.drop_drop, List.take_take, Nat.add_sub_cancel' after] at cut
  rwa [Nat.min_eq_left (by omega)] at cut

theorem Agree.tail {i j k : Nat} (agree : Agree q r i j) (after : i ≤ k) : Agree q r k j :=
  ⟨agree.1, agree.2.1, agree.slice after (le_refl j)⟩

theorem skipName_inside {i : Nat} (inside : i < q.length)
    : skipName q i
      = if q.getD i 0 = 0 then .ok (i + 1)
        else if q.getD i 0 &&& 0xc0 = 0xc0 then .ok (i + 2)
        else skipName q (i + (1 + (q.getD i 0).toNat)) := by
  rw [skipName, dif_pos inside, byteAt_inside inside]
  rfl

/-- The length of a label is no mark of a pointer. -/
theorem not_pointer {b : Byte} (short : b.toNat ≤ 63) : ¬ b &&& 0xc0 = 0xc0 := by
  intro pointer
  have bits := congrArg UInt8.toNat pointer
  have below : b.toNat &&& 0xc0 ≤ b.toNat := Nat.and_le_left
  rw [UInt8.toNat_and] at bits
  change b.toNat &&& 0xc0 = 0xc0 at bits
  omega

/-- The labels of a name are read from the bytes of the name alone, and a name is passed over to
where its labels end.
-/
theorem labels_agree {i j : Nat} {name name' : Text} (inside : j < q.length)
    (read : labels q i name = .ok (some (name', j))) (agree : Agree q r i j)
    : labels r i name = .ok (some (name', j)) ∧ skipName q i = .ok j := by
  induction left : q.length - i using Nat.strong_induction_on generalizing i name with
  | _ left ih =>
      by_cases before : i < q.length
      case neg =>
        rw [labels_outside (by omega)] at read
        cases read
        omega
      rw [labels_inside before] at read
      rw [skipName_inside before]
      split at read
      case isTrue ended =>
        cases read
        have same := agree.getD (le_refl i) (Nat.lt_succ_self i)
        have within := agree.2.1
        rw [labels_inside (by omega), same, if_pos ended, if_pos ended]
        exact ⟨rfl, rfl⟩
      case isFalse more =>
        split at read
        · cases read
        case isFalse fits =>
          have after : i + 1 + (q.getD i 0).toNat ≤ j := by
            rcases labels_ends q (i + 1 + (q.getD i 0).toNat) _ with refused | ⟨_, _, is, after, -⟩
            · cases refused.symm.trans read
            · cases is.symm.trans read
              exact after
          have within := agree.2.1
          have same := agree.getD (le_refl i) (by omega)
          have slice := agree.slice (Nat.le_succ i) after
          rw [Nat.add_sub_cancel_left] at slice
          obtain ⟨found, skipped⟩ := ih (q.length - (i + 1 + (q.getD i 0).toNat)) (by omega) read
            (agree.tail (by omega)) rfl
          have pointer : ¬ q.getD i 0 &&& 0xc0 = 0xc0 := not_pointer (by omega)
          rw [labels_inside (by omega), same, slice, if_neg more, if_neg (by omega), if_neg more,
            if_neg pointer, ← Nat.add_assoc]
          exact ⟨found, skipped⟩

-----------------------------------------------------------------------------------------
-- Questions
-----------------------------------------------------------------------------------------

/-- The question of a packet: the labels, and two numbers that are still inside. -/
theorem dnsQuestion_ends (q : List Byte)
    : dnsQuestion q = .ok none
      ∨ ∃ name j, labels q 12 [] = .ok (some (name, j)) ∧ 12 ≤ j ∧ j + 4 ≤ q.length
        ∧ dnsQuestion q
          = .ok (some ⟨name, (q.getD j 0).toNat * 256 + (q.getD (j + 1) 0).toNat, j + 4⟩) := by
  rcases labels_ends q 12 [] with refused | ⟨name, j, is, after, -⟩
  · exact .inl (by rw [dnsQuestion, refused]; rfl)
  · by_cases inside : j + 4 ≤ q.length
    · refine .inr ⟨name, j, is, after, inside, ?_⟩
      rw [dnsQuestion, is]
      refine (if_neg (by omega)).trans ?_
      rw [shortAt_inside (by omega)]
      rfl
    · refine .inl ?_
      rw [dnsQuestion, is]
      exact if_pos (by omega)

/-- A packet with the same bytes there has the same question, and it is passed over to its end. -/
theorem dnsQuestion_agree {question : Question} (asked : dnsQuestion q = .ok (some question))
    (agree : Agree q r 12 question.qend)
    : dnsQuestion r = .ok (some question) ∧ skipQuestions r 1 12 = .ok (some question.qend) := by
  rcases dnsQuestion_ends q with none_ | ⟨name, j, read, after, inside, is⟩
  · cases none_.symm.trans asked
  cases is.symm.trans asked
  have within := agree.2.1
  dsimp only at within agree
  have names : Agree q r 12 j := ⟨by omega, by omega, agree.slice (le_refl 12) (by omega)⟩
  have found := (labels_agree (by omega) read names).1
  have skipped := (labels_agree (by omega) found ⟨by omega, by omega, rfl⟩).2
  constructor
  · rw [dnsQuestion, found]
    refine (if_neg (by omega)).trans ?_
    rw [shortAt_inside (by omega), agree.getD (by omega) (by omega),
      agree.getD (by omega) (by omega)]
    rfl
  · rw [skipQuestions, skipped]
    exact if_neg (by omega)

-----------------------------------------------------------------------------------------
-- Replies, read back
-----------------------------------------------------------------------------------------

/-- A reply of twelve bytes, the question and what follows it. -/
theorem agree_reply {head tail : List Byte} {stop : Nat} (twelve : head.length = 12)
    (after : 12 ≤ stop) (inside : stop ≤ q.length)
    : Agree q (head ++ (q.drop 12).take (stop - 12) ++ tail) 12 stop := by
  have long : ((q.drop 12).take (stop - 12)).length = stop - 12 := by
    rw [List.length_take, List.length_drop]
    omega
  refine ⟨inside, ?_, ?_⟩
  · rw [List.length_append, List.length_append, long]
    omega
  · rw [List.append_assoc, ← twelve, List.drop_left, twelve]
    exact List.take_left' long

theorem getD_drop (i k : Nat) : (r.drop i).getD k 0 = r.getD (i + k) 0 := by
  simp [List.getD_eq_getElem?_getD, List.getElem?_drop]

theorem length_aRecord (ip : Ip) : (aRecord ip).length = 16 := rfl

theorem fromBeBytes_aRecord (ip : Ip)
    : fromBeBytes [((aRecord ip).getD 12 0).toNat, ((aRecord ip).getD 13 0).toNat,
        ((aRecord ip).getD 14 0).toNat, ((aRecord ip).getD 15 0).toNat] = ip := by
  have small : ∀ b ∈ toBeBytes ip, (UInt8.ofNat b).toNat = b := by
    intro b member
    have le := toBeBytes_le member
    exact UInt8.toNat_ofNat_of_lt' (Nat.lt_succ_of_le le)
  have back : (toBeBytes ip).map (fun b => (UInt8.ofNat b).toNat) = toBeBytes ip :=
    (List.map_congr_left small).trans (List.map_id _)
  exact (congrArg fromBeBytes back).trans (fromBeBytes_toBeBytes ip)

/-- One record in front of a position is read as its address. -/
theorem readAnswers_record {ip : Ip} {i : Nat} {rest : List Byte}
    (there : r.drop i = aRecord ip ++ rest) (count : Nat)
    : readAnswers r (count + 1) i
        = (readAnswers r count (i + 16)).map (ip :: ·)
      ∧ r.drop (i + 16) = rest := by
  have long : i + 16 ≤ r.length := by
    have lengths := congrArg List.length there
    rw [List.length_drop, List.length_append, length_aRecord] at lengths
    omega
  have byte (k : Nat) (inside : k < 16) : r.getD (i + k) 0 = (aRecord ip).getD k 0 := by
    rw [← getD_drop, there, List.getD_eq_getElem?_getD, List.getD_eq_getElem?_getD,
      List.getElem?_append_left inside]
  have fixed (k : Nat) (inside : k < 12) : r.getD (i + k) 0 = aRecordHead.getD k 0 := by
    rw [byte k (by omega), aRecord, List.getD_eq_getElem?_getD, List.getD_eq_getElem?_getD,
      List.getElem?_append_left inside]
  constructor
  · have skipped : skipName r i = .ok (i + 2) := by
      rw [skipName_inside (by omega), show r.getD i 0 = 0xc0 from fixed 0 (by omega)]
      rfl
    have rtype : shortAt r (i + 2) = .ok 1 := by
      rw [shortAt_inside (by omega), fixed 2 (by omega), fixed 3 (by omega)]
      rfl
    have rdlen : shortAt r (i + 2 + 8) = .ok 4 := by
      rw [shortAt_inside (by omega), fixed 10 (by omega), fixed 11 (by omega)]
      rfl
    rw [readAnswers, skipped]
    refine (if_neg (by omega)).trans ?_
    rw [rtype, rdlen]
    refine (if_neg (by omega)).trans ?_
    refine (if_pos ⟨rfl, rfl⟩).trans ?_
    rw [byteAt_inside (by omega), byteAt_inside (by omega), byteAt_inside (by omega),
      byteAt_inside (by omega), byte 12 (by omega), byte 13 (by omega), byte 14 (by omega),
      byte 15 (by omega)]
    refine (congrArg (fun address => readAnswers r count (i + 16) >>= fun rest =>
      .ok (address :: rest)) (fromBeBytes_aRecord ip)).trans ?_
    cases readAnswers r count (i + 16) <;> rfl
  · rw [← List.drop_drop, there]
    exact List.drop_left' (length_aRecord ip)

/-- The records of a reply are read one after the other, as many as are announced. -/
theorem readAnswers_records (ips : List Ip) (count i : Nat)
    (there : r.drop i = ips.flatMap aRecord)
    : readAnswers r count i = .ok (ips.take count) := by
  induction count generalizing ips i with
  | zero => rfl
  | succ count ih =>
      cases ips with
      | nil =>
          have beyond : r.length ≤ i := List.drop_eq_nil_iff.mp there
          rw [readAnswers, skipName, dif_neg (by omega)]
          exact if_pos (by omega)
      | cons ip ips =>
          obtain ⟨first, rest⟩ := readAnswers_record there count
          rw [first, ih ips (i + 16) rest]
          rfl

/-- A question is inside of its packet, which has a header. -/
theorem dnsQuestion_inside {question : Question} (asked : dnsQuestion q = .ok (some question))
    : 16 ≤ question.qend ∧ question.qend ≤ q.length := by
  rcases dnsQuestion_ends q with none_ | ⟨name, j, -, after, inside, is⟩
  · cases none_.symm.trans asked
  · cases is.symm.trans asked
    exact ⟨Nat.add_le_add_right after 4, inside⟩

/-- What a reply to a question says: the transaction it is for, the question it repeats, its code
and the addresses it lists.
-/
structure Says (r : List Byte) (transaction : List Byte) (question : Question) (rcode : Byte)
    (ips : List Ip) : Prop where
  transaction : r.take 2 = transaction
  isReply : r.getD 2 0 &&& 0x80 = 0x80
  rcode : r.getD 3 0 &&& 0x0f = rcode
  question : dnsQuestion r = .ok (some question)
  addresses : parseARecords r = .ok ips

/-- The bytes of a reply: the head, the question and the records. -/
def replyBytes (q : List Byte) (qend : Nat) (flags rcode : Byte) (count : Nat) (ips : List Ip)
    : List Byte :=
  (q.take 2 ++ [flags, rcode] ++ [0x00, 0x01] ++ beBytes 2 count ++ [0x00, 0x00, 0x00, 0x00])
    ++ (q.drop 12).take (qend - 12) ++ ips.flatMap aRecord

theorem answerReply_eq {qend : Nat} (header : 12 ≤ qend) (inside : qend ≤ q.length)
    (ips : List Ip)
    : answerReply q qend ips = .ok (replyBytes q qend 0x81 0x80 ips.length ips) := by
  rw [answerReply, sliceAt_inside (Nat.zero_le 2) (by omega), sliceAt_inside header inside]
  simp [replyBytes, bind, Except.bind]

theorem negativeReply_eq {qend : Nat} (header : 12 ≤ qend) (inside : qend ≤ q.length)
    (rcode : Byte)
    : negativeReply q qend rcode
      = .ok (replyBytes q qend (0x84 ||| (q.getD 2 0 &&& 0x01)) (0x80 ||| rcode) 0 []) := by
  rw [negativeReply, sliceAt_inside (Nat.zero_le 2) (by omega), byteAt_inside (by omega),
    sliceAt_inside header inside]
  have none_ : beBytes 2 0 = [0x00, 0x00] := rfl
  simp [replyBytes, bind, Except.bind, none_]

/-- A reply is read back as what it was made of. -/
theorem says_replyBytes {question : Question} (asked : dnsQuestion q = .ok (some question))
    {flags code rcode : Byte} (reply : flags &&& 0x80 = 0x80) (is : code &&& 0x0f = rcode)
    (count : Nat) (ips : List Ip)
    : Says (replyBytes q question.qend flags code count ips) (q.take 2) question rcode
        (ips.take (count % 65536)) := by
  obtain ⟨header, inside⟩ := dnsQuestion_inside asked
  obtain ⟨a, b, id⟩ : ∃ a b, q.take 2 = [a, b] :=
    List.length_eq_two.mp (by rw [List.length_take]; omega)
  obtain ⟨high, low, announced⟩ : ∃ high low, beBytes 2 count = [high, low] := ⟨_, _, rfl⟩
  have number : high.toNat * 256 + low.toNat = count % 65536 := by
    have value := ofBytes_beBytes 2 count
    rw [announced] at value
    simpa [ofBytes] using value
  generalize bytes : replyBytes q question.qend flags code count ips = r
  rw [replyBytes, id, announced] at bytes
  have agree : Agree q r 12 question.qend := by
    rw [← bytes]
    exact agree_reply rfl (by omega) inside
  have long : 12 ≤ r.length := by
    have within := agree.2.1
    omega
  have at_ (k : Nat) (inside : k < 12)
      : r.getD k 0 = [a, b, flags, code, 0, 1, high, low, 0, 0, 0, 0].getD k 0 := by
    rw [← bytes, List.append_assoc, List.getD_eq_getElem?_getD, List.getD_eq_getElem?_getD,
      List.getElem?_append_left inside]
    rfl
  obtain ⟨same, skipped⟩ := dnsQuestion_agree asked agree
  refine ⟨?_, ?_, ?_, same, ?_⟩
  · rw [← bytes, id]
    rfl
  · rw [at_ 2 (by omega)]
    exact reply
  · rw [at_ 3 (by omega)]
    exact is
  · have questions : shortAt r 4 = .ok 1 := by
      rw [shortAt_inside (by omega), at_ 4 (by omega), at_ 5 (by omega)]
      have one : (0 : Byte).toNat * 256 + (1 : Byte).toNat = 1 := rfl
      exact congrArg Except.ok one
    have answers : shortAt r 6 = .ok (count % 65536) := by
      rw [shortAt_inside (by omega), at_ 6 (by omega), at_ 7 (by omega), ← number]
      rfl
    have records : r.drop question.qend = ips.flatMap aRecord := by
      rw [← bytes]
      refine List.drop_left' ?_
      rw [List.length_append, List.length_take, List.length_drop]
      show 12 + min (question.qend - 12) (q.length - 12) = question.qend
      omega
    rw [parseARecords, if_neg (by omega), questions, answers]
    show (skipQuestions r 1 12 >>= _) = _
    rw [skipped]
    exact readAnswers_records ips (count % 65536) question.qend records

-----------------------------------------------------------------------------------------
-- Handling
-----------------------------------------------------------------------------------------

/-- The addresses that are found for a question: a Service only where addresses are asked for, a
single workload also for the other address type and for any type under an owned name.
-/
def lookedUp (resolver : Resolver) (question : Question) : Option (List Ip) :=
  (if question.qtype = qtypeA then resolver.multi question.name else none).or
    (if question.qtype = qtypeA ∨ question.qtype = qtypeAaaa ∨ resolver.owns question.name then
      (resolver.single question.name).map fun ip => [ip]
    else none)

/-- What a client learns: a code and addresses, or nothing, when the question is for others to
answer. A name with an address exists whatever is asked about it, and an owned one without does
not.
-/
def known (resolver : Resolver) (question : Question) : Option (Byte × List Ip) :=
  match lookedUp resolver question with
  | some ips => some (rcodeNoerror, if question.qtype = qtypeA then ips else [])
  | none => if resolver.owns question.name then some (rcodeNxdomain, []) else none

/-- What a client learns from an action. -/
def DnsAction.learnt : DnsAction → Option (Byte × List Ip)
  | .answer ip => some (rcodeNoerror, [ip])
  | .noData => some (rcodeNoerror, [])
  | .nxDomain => some (rcodeNxdomain, [])
  | .forward => none

theorem positive_flags : (0x81 : Byte) &&& 0x80 = 0x80 := rfl

theorem positive_code : (0x80 : Byte) &&& 0x0f = rcodeNoerror := rfl

theorem negative_code {rcode : Byte} (small : rcode = rcodeNoerror ∨ rcode = rcodeNxdomain)
    : (0x80 ||| rcode) &&& 0x0f = rcode := by
  rcases small with rfl | rfl <;> rfl

theorem negative_flags (b : Byte) : (0x84 ||| (b &&& 0x01)) &&& 0x80 = 0x80 := by
  have bit : (b &&& 0x01).toNat = b.toNat % 2 :=
    (UInt8.toNat_and b 0x01).trans (Nat.and_one_is_mod b.toNat)
  rcases Nat.mod_two_eq_zero_or_one b.toNat with even | odd
  · have clear : b &&& 0x01 = 0 := UInt8.toNat_inj.mp (bit.trans even)
    rw [clear]
    rfl
  · have set_ : b &&& 0x01 = 1 := UInt8.toNat_inj.mp (bit.trans odd)
    rw [set_]
    rfl

/-- The decision table, fed with the one address that the node looked up, says what is known. -/
theorem learnt_dnsActionOwned (resolver : Resolver) (question : Question)
    (single : question.qtype = qtypeA → resolver.multi question.name = none)
    : (dnsActionOwned question.qtype (resolver.owns question.name)
        (if question.qtype = qtypeA ∨ question.qtype = qtypeAaaa ∨ resolver.owns question.name
          then resolver.single question.name else none)).learnt
      = known resolver question := by
  have looked : lookedUp resolver question
      = (if question.qtype = qtypeA ∨ question.qtype = qtypeAaaa ∨ resolver.owns question.name
          then resolver.single question.name else none).map fun ip => [ip] := by
    have noService : (if question.qtype = qtypeA then resolver.multi question.name else none)
        = none := by
      split
      · exact single ‹_›
      · rfl
    rw [lookedUp, noService, Option.none_or]
    split <;> rfl
  rw [known, looked]
  generalize (if question.qtype = qtypeA ∨ question.qtype = qtypeAaaa
    ∨ resolver.owns question.name then resolver.single question.name else none) = resolved
  unfold dnsActionOwned
  by_cases address : question.qtype = qtypeA
  · cases resolved with
    | some ip => simp [address, DnsAction.learnt]
    | none => cases resolver.owns question.name <;> simp [address, DnsAction.learnt]
  · cases resolved with
    | some ip => simp [address, DnsAction.learnt]
    | none => cases resolver.owns question.name <;> simp [address, DnsAction.learnt]

/-- An action on a question is carried out as what a client learns from it. -/
theorem perform_learnt {question : Question} (asked : dnsQuestion q = .ok (some question))
    (action : DnsAction)
    : (action.learnt = none ∧ perform q question.qend action = .ok .upstream)
      ∨ ∃ r rcode ips, action.learnt = some (rcode, ips)
        ∧ perform q question.qend action = .ok (.reply r)
        ∧ Says r (q.take 2) question rcode (ips.take (ips.length % 65536)) := by
  obtain ⟨header, inside⟩ := dnsQuestion_inside asked
  have refused (rcode : Byte) (small : rcode = rcodeNoerror ∨ rcode = rcodeNxdomain)
      : ∃ r, negativeReply q question.qend rcode = .ok r ∧ Says r (q.take 2) question rcode [] :=
    ⟨_, negativeReply_eq (by omega) inside rcode,
      says_replyBytes asked (negative_flags _) (negative_code small) 0 []⟩
  cases action with
  | answer ip =>
      refine .inr ⟨_, _, [ip], rfl, ?_, says_replyBytes asked positive_flags positive_code 1 [ip]⟩
      rw [perform, answerReply_eq (by omega) inside]
      rfl
  | noData =>
      obtain ⟨r, is, means⟩ := refused rcodeNoerror (.inl rfl)
      exact .inr ⟨r, _, [], rfl, by rw [perform, is]; rfl, means⟩
  | nxDomain =>
      obtain ⟨r, is, means⟩ := refused rcodeNxdomain (.inr rfl)
      exact .inr ⟨r, _, [], rfl, by rw [perform, is]; rfl, means⟩
  | forward => exact .inl ⟨rfl, rfl⟩

/-- A question that nothing is known for goes upstream, and every other one gets a reply of the same
transaction that repeats the question, has the code of what is known and lists the known addresses,
as many as its count has room for.
-/
theorem handleDns_asked (resolver : Resolver) {q : List Byte} {question : Question}
    (asked : dnsQuestion q = .ok (some question))
    : (known resolver question = none ∧ handleDns resolver q = .ok .upstream)
      ∨ ∃ r rcode ips, known resolver question = some (rcode, ips)
        ∧ handleDns resolver q = .ok (.reply r)
        ∧ Says r (q.take 2) question rcode (ips.take (ips.length % 65536)) := by
  obtain ⟨header, inside⟩ := dnsQuestion_inside asked
  rcases list : (if question.qtype = qtypeA then resolver.multi question.name else none)
    with _ | ips
  · have single (address : question.qtype = qtypeA) : resolver.multi question.name = none := by
      rwa [if_pos address] at list
    have performed : handleDns resolver q
        = perform q question.qend (dnsActionOwned question.qtype (resolver.owns question.name)
          (if question.qtype = qtypeA ∨ question.qtype = qtypeAaaa ∨ resolver.owns question.name
            then resolver.single question.name else none)) := by
      rw [handleDns, asked]
      simp only [bind, Except.bind, list]
    rw [performed, ← learnt_dnsActionOwned resolver question single]
    exact perform_learnt asked _
  · have address : question.qtype = qtypeA := by
      by_contra other
      rw [if_neg other] at list
      cases list
    rw [if_pos address] at list
    refine .inr ⟨_, rcodeNoerror, ips, ?_, ?_,
      says_replyBytes asked positive_flags positive_code _ ips⟩
    · rw [known, lookedUp, if_pos address, list]
      simp [address]
    · rw [handleDns, asked]
      simp only [bind, Except.bind, if_pos address, list, answerReply_eq (by omega) inside]
      rfl

/-- Whatever the bytes of a packet are, handling it stays inside of them. A packet without a
question goes upstream, and so does a question that nothing is known for. Every other one gets a
reply of the same transaction that repeats the question, has the code of what is known and lists
the known addresses, as many as its count has room for.
-/
theorem handleDns_serves (resolver : Resolver) (q : List Byte)
    : (dnsQuestion q = .ok none ∧ handleDns resolver q = .ok .upstream)
      ∨ ∃ question, dnsQuestion q = .ok (some question)
        ∧ ((known resolver question = none ∧ handleDns resolver q = .ok .upstream)
          ∨ ∃ r rcode ips, known resolver question = some (rcode, ips)
            ∧ handleDns resolver q = .ok (.reply r)
            ∧ Says r (q.take 2) question rcode (ips.take (ips.length % 65536))) := by
  rcases dnsQuestion_ends q with none_ | ⟨name, j, -, -, -, asked⟩
  · refine .inl ⟨none_, ?_⟩
    rw [handleDns, none_]
    rfl
  · exact .inr ⟨_, asked, handleDns_asked resolver asked⟩

-----------------------------------------------------------------------------------------
-- Any response
-----------------------------------------------------------------------------------------

/-- A name is passed over from wherever it starts, by a byte at least when it starts inside. -/
theorem skipName_ends (b : List Byte) (i : Nat)
    : ∃ j, skipName b i = .ok j ∧ i ≤ j ∧ (i < b.length → i < j) := by
  induction left : b.length - i using Nat.strong_induction_on generalizing i with
  | _ left ih =>
      by_cases inside : i < b.length
      · rw [skipName_inside inside]
        split
        · exact ⟨i + 1, rfl, by omega, by omega⟩
        split
        · exact ⟨i + 2, rfl, by omega, by omega⟩
        obtain ⟨j, is, after, -⟩ := ih (b.length - (i + (1 + (b.getD i 0).toNat))) (by omega) _ rfl
        exact ⟨j, is, by omega, by omega⟩
      · exact ⟨i, by rw [skipName, dif_neg inside], le_refl i, by omega⟩

theorem skipQuestions_ends (b : List Byte) (count i : Nat)
    : ∃ stop, skipQuestions b count i = .ok stop ∧ ∀ j ∈ stop, i ≤ j := by
  induction count generalizing i with
  | zero => exact ⟨some i, rfl, fun j is => (Option.some.inj is).le⟩
  | succ count ih =>
      obtain ⟨j, is, after, -⟩ := skipName_ends b i
      rw [skipQuestions, is]
      by_cases outside : b.length < j + 4
      · exact ⟨none, if_pos outside, by simp⟩
      · obtain ⟨stop, found, past⟩ := ih (j + 4)
        refine ⟨stop, (if_neg outside).trans found, fun k is => ?_⟩
        have behind := past k is
        omega

/-- The answers are read inside of the response, and each address takes fifteen bytes of it. -/
theorem readAnswers_ends (b : List Byte) (count i : Nat)
    : ∃ ips, readAnswers b count i = .ok ips ∧ (ips = [] ∨ i + 15 * ips.length ≤ b.length) := by
  induction count generalizing i with
  | zero => exact ⟨[], rfl, .inl rfl⟩
  | succ count ih =>
      obtain ⟨j, is, after, behind⟩ := skipName_ends b i
      rw [readAnswers, is]
      by_cases short : b.length < j + 10
      · exact ⟨[], if_pos short, .inl rfl⟩
      generalize type_ : (b.getD j 0).toNat * 256 + (b.getD (j + 1) 0).toNat = rtype
      generalize long : (b.getD (j + 8) 0).toNat * 256 + (b.getD (j + 8 + 1) 0).toNat = rdlen
      have read : shortAt b j = .ok rtype := by rw [shortAt_inside (by omega), type_]
      have read' : shortAt b (j + 8) = .ok rdlen := by rw [shortAt_inside (by omega), long]
      simp only [bind, Except.bind, if_neg short, read, read']
      by_cases cut : b.length < j + 10 + rdlen
      · exact ⟨[], if_pos cut, .inl rfl⟩
      obtain ⟨ips, rest, room⟩ := ih (j + 10 + rdlen)
      by_cases address : rtype = 1 ∧ rdlen = 4
      · obtain ⟨rfl, rfl⟩ := address
        rw [if_neg cut, byteAt_inside (by omega), byteAt_inside (by omega),
          byteAt_inside (by omega), byteAt_inside (by omega), rest]
        refine ⟨_, rfl, .inr ?_⟩
        rw [List.length_cons]
        rcases room with rfl | room
        · rw [List.length_nil]
          omega
        · omega
      · refine ⟨ips, (if_neg cut).trans ((if_neg address).trans rest), ?_⟩
        rcases room with rfl | room
        · exact .inl rfl
        · exact .inr (by omega)

/-- Whatever the bytes of a response are, reading its addresses stays inside of them, and each one
takes fifteen bytes behind the header: a small response teaches few addresses, whatever it
announces.
-/
theorem parseARecords_bounded (resp : List Byte)
    : ∃ ips, parseARecords resp = .ok ips ∧ (ips = [] ∨ 12 + 15 * ips.length ≤ resp.length) := by
  by_cases short : resp.length < 12
  · exact ⟨[], if_pos short, .inl rfl⟩
  rw [parseARecords, if_neg short, shortAt_inside (by omega), shortAt_inside (by omega)]
  simp only [bind, Except.bind]
  obtain ⟨stop, is, past⟩ := skipQuestions_ends resp
    ((resp.getD 4 0).toNat * 256 + (resp.getD (4 + 1) 0).toNat) 12
  rw [is]
  rcases stop with _ | i
  · exact ⟨[], rfl, .inl rfl⟩
  · obtain ⟨ips, read, room⟩ := readAnswers_ends resp
      ((resp.getD 6 0).toNat * 256 + (resp.getD (6 + 1) 0).toNat) i
    have behind := past i rfl
    refine ⟨ips, read, ?_⟩
    rcases room with rfl | room
    · exact .inl rfl
    · exact .inr (by omega)

-----------------------------------------------------------------------------------------
-- Hostile packets
-----------------------------------------------------------------------------------------

/-- A name as labels behind their lengths, up to a zero. -/
def nameBytes (names : List (List Byte)) : List Byte :=
  names.flatMap (fun label => UInt8.ofNat label.length :: label) ++ [0]

/-- The packet has, from its header on, a name of labels of 1 to 63 bytes and four bytes more, and
this is where they end.
-/
def WellFormed (q : List Byte) (qend : Nat) : Prop :=
  ∃ names rest, (∀ label ∈ names, 1 ≤ label.length ∧ label.length ≤ 63) ∧ rest.length = 4
    ∧ qend ≤ q.length ∧ 12 ≤ qend ∧ (q.drop 12).take (qend - 12) = nameBytes names ++ rest

theorem take_drop_succ {i : Nat} (inside : i < q.length) (n : Nat)
    : (q.drop i).take (n + 1) = q.getD i 0 :: (q.drop (i + 1)).take n := by
  rw [List.drop_eq_getElem_cons inside, List.take_succ_cons, List.getD_eq_getElem?_getD,
    List.getElem?_eq_getElem inside, Option.getD_some]

theorem nameBytes_cons (label : List Byte) (names : List (List Byte))
    : nameBytes (label :: names) = UInt8.ofNat label.length :: (label ++ nameBytes names) := by
  rw [nameBytes, List.flatMap_cons, List.append_assoc, List.cons_append, nameBytes]

/-- What the loop over labels has read when it ends inside, by induction on the bytes that are
left.
-/
theorem labels_wellFormed {i j : Nat} {name name' : Text} (inside : j < q.length)
    (read : labels q i name = .ok (some (name', j)))
    : i ≤ j ∧ ∃ names, (∀ label ∈ names, 1 ≤ label.length ∧ label.length ≤ 63)
        ∧ (q.drop i).take (j - i) = nameBytes names := by
  induction left : q.length - i using Nat.strong_induction_on generalizing i name with
  | _ left ih =>
      by_cases before : i < q.length
      case neg =>
        rw [labels_outside (by omega)] at read
        cases read
        omega
      rw [labels_inside before] at read
      split at read
      case isTrue ended =>
        cases read
        refine ⟨Nat.le_succ i, [], by simp, ?_⟩
        rw [Nat.add_sub_cancel_left, take_drop_succ before, ended]
        rfl
      case isFalse more =>
        split at read
        · cases read
        case isFalse fits =>
          obtain ⟨after, names, each, rest⟩ :=
            ih (q.length - (i + 1 + (q.getD i 0).toNat)) (by omega) read rfl
          have long : ((q.drop (i + 1)).take (q.getD i 0).toNat).length = (q.getD i 0).toNat := by
            rw [List.length_take, List.length_drop]
            omega
          have some_ : (q.getD i 0).toNat ≠ 0 := fun zero => more (UInt8.toNat_inj.mp zero)
          refine ⟨by omega, (q.drop (i + 1)).take (q.getD i 0).toNat :: names, ?_, ?_⟩
          · exact List.forall_mem_cons.mpr ⟨by rw [long]; omega, each⟩
          · have parts : j - i
                = ((q.getD i 0).toNat + (j - (i + 1 + (q.getD i 0).toNat))) + 1 := by omega
            rw [parts, take_drop_succ before, List.take_add, List.drop_drop, rest, nameBytes_cons,
              long, UInt8.ofNat_toNat]

theorem dnsQuestion_wellFormed {question : Question} (asked : dnsQuestion q = .ok (some question))
    : WellFormed q question.qend := by
  rcases dnsQuestion_ends q with none_ | ⟨name, j, read, after, inside, is⟩
  · cases none_.symm.trans asked
  cases is.symm.trans asked
  obtain ⟨-, names, each, bytes⟩ := labels_wellFormed (by omega) read
  refine ⟨names, (q.drop j).take 4, each, ?_, inside, Nat.le_add_right_of_le after, ?_⟩
  · rw [List.length_take, List.length_drop]
    omega
  · have parts : j + 4 - 12 = (j - 12) + 4 := by omega
    dsimp only
    rw [parts, List.take_add, bytes, List.drop_drop, Nat.add_sub_cancel' after]

/-- The codec on hostile packets. A question that is found is well-formed and ends where it says; the
replies to it are built inside of the packet and read back as the addresses they were built from;
and whatever the bytes are, no reader leaves them.
-/
theorem codec_sound
    : (∀ q question, dnsQuestion q = .ok (some question)
        → WellFormed q question.qend
        ∧ (∀ ips : List Ip, ips.length ≤ 65535
          → ∃ r, answerReply q question.qend ips = .ok r ∧ parseARecords r = .ok ips)
        ∧ (∀ rcode, ∃ r, negativeReply q question.qend rcode = .ok r ∧ parseARecords r = .ok [])
        ∧ ∀ (resolver : Resolver) rcode ips, known resolver question = some (rcode, ips)
          → ips.length ≤ 65535
          → ∃ r, handleDns resolver q = .ok (.reply r) ∧ parseARecords r = .ok ips)
      ∧ (∀ q, ∃ found, dnsQuestion q = .ok found)
      ∧ (∀ (resolver : Resolver) q, ∃ handled, handleDns resolver q = .ok handled)
      ∧ (∀ b i, ∃ j, skipName b i = .ok j)
      ∧ ∀ resp, ∃ ips, parseARecords resp = .ok ips := by
  have whole (ips : List Ip) (few : ips.length ≤ 65535) : ips.take (ips.length % 65536) = ips := by
    rw [Nat.mod_eq_of_lt (by omega), List.take_length]
  refine ⟨fun q question asked => ⟨dnsQuestion_wellFormed asked, fun ips few => ?_, fun rcode => ?_,
    fun resolver rcode ips knows few => ?_⟩, fun q => ?_, fun resolver q => ?_, fun b i => ?_,
    fun resp => ?_⟩
  · obtain ⟨header, inside⟩ := dnsQuestion_inside asked
    have reads := (says_replyBytes asked positive_flags positive_code ips.length ips).addresses
    rw [whole ips few] at reads
    exact ⟨_, answerReply_eq (by omega) inside ips, reads⟩
  · obtain ⟨header, inside⟩ := dnsQuestion_inside asked
    exact ⟨_, negativeReply_eq (by omega) inside rcode,
      (says_replyBytes asked (negative_flags _) rfl 0 []).addresses⟩
  · rcases handleDns_asked resolver asked with ⟨unknown, -⟩ | ⟨r, _, _, is, handled, means⟩
    · cases unknown.symm.trans knows
    · cases is.symm.trans knows
      exact ⟨r, handled, means.addresses.trans (congrArg _ (whole ips few))⟩
  · rcases dnsQuestion_ends q with absent | ⟨name, j, -, -, -, found⟩
    · exact ⟨_, absent⟩
    · exact ⟨_, found⟩
  · rcases dnsQuestion_ends q with absent | ⟨name, j, -, -, -, asked⟩
    · exact ⟨.upstream, by rw [handleDns, absent]; rfl⟩
    · rcases handleDns_asked resolver asked with ⟨-, up⟩ | ⟨r, rcode, ips, -, handled, -⟩
      · exact ⟨_, up⟩
      · exact ⟨_, handled⟩
  · obtain ⟨j, is, -⟩ := skipName_ends b i
    exact ⟨j, is⟩
  · obtain ⟨ips, is, -⟩ := parseARecords_bounded resp
    exact ⟨ips, is⟩

/-- A query for the addresses of `db.shop`. -/
def shopQuery : List Byte :=
  [0x1f, 0x2e, 1, 0, 0, 1, 0, 0, 0, 0, 0, 0]
    ++ nameBytes [[0x64, 0x62], [0x73, 0x68, 0x6f, 0x70]] ++ [0, 1, 0, 1]

def shopQuestion : Question := ⟨"db.shop".toList, qtypeA, 25⟩

/-- A resolver that knows one Service, of two replicas. -/
def shopResolver : Resolver where
  owns _ := false
  multi name := if name = "db.shop".toList then some [0x0AC80005, 0x0AC80006] else none
  single _ := none

theorem codec_sound_shop
    : WellFormed shopQuery 25
      ∧ (∃ r, answerReply shopQuery 25 [0x0AC80005, 0x0AC80006] = .ok r
        ∧ parseARecords r = .ok [0x0AC80005, 0x0AC80006])
      ∧ (∃ r, negativeReply shopQuery 25 rcodeNxdomain = .ok r ∧ parseARecords r = .ok [])
      ∧ ∃ r, handleDns shopResolver shopQuery = .ok (.reply r)
        ∧ parseARecords r = .ok [0x0AC80005, 0x0AC80006] := by
  have read : labels shopQuery 12 [] = .ok (some ("db.shop".toList, 21)) := by
    rw [labels_inside (by decide), if_neg (by decide), if_neg (by decide)]
    rw [labels_inside (by decide), if_neg (by decide), if_neg (by decide)]
    rw [labels_inside (by decide), if_pos (by decide)]
    decide +kernel
  have asked : dnsQuestion shopQuery = .ok (some shopQuestion) := by
    rw [dnsQuestion, read]
    decide
  obtain ⟨wellFormed, answered, denied, handled⟩ := codec_sound.1 shopQuery shopQuestion asked
  exact ⟨wellFormed, answered _ (by decide), denied rcodeNxdomain,
    handled shopResolver rcodeNoerror _ (by decide) (by decide)⟩

end Delonix.Dns
