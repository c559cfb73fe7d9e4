import Mathlib.Data.Prod.Lex
import Mathlib.Data.String.Basic
import Delonix.Library.Pieces
import Delonix.Library.Paging
import Delonix.Operations.Ledger

/-! The list of the operations, one page at a time. Each call reads the directory anew and settles
every record it finds. A page token names the last record of the page before, and the server
remembers nothing.
-/

namespace Delonix.Operations

open Delonix.Library.Paging
open Delonix.Library.Text

-----------------------------------------------------------------------------------------
-- Requests
-----------------------------------------------------------------------------------------

def defaultPage : Nat := 100

def maxPage : Nat := 1000

structure PageRequest where
  pageSize : Int
  pageToken : String
  deriving DecidableEq, Repr

structure ListOperationsRequest where
  page : Option PageRequest
  activeOnly : Bool
  deriving DecidableEq, Repr

/-- The number of items a page carries: the default for 0, capped, and a negative size refused. -/
def PageRequest.size (page : PageRequest) : Except Status Nat :=
  if page.pageSize = 0 then .ok defaultPage
  else if page.pageSize < 0 then
    .error (.invalidArgument ("page_size " ++ toString page.pageSize
      ++ ": has to be 0 (the default, " ++ toString defaultPage ++ ") or more"))
  else .ok (min page.pageSize.toNat maxPage)

/-- Where a page token goes on from. -/
def PageRequest.after (page : PageRequest) : Except Status (Option (Nat × String)) :=
  if page.pageToken = "" then .ok none
  else
    let read := do
      let (ms, id) ← splitOnce '-' page.pageToken.toList
      let ms ← parseUnsigned 10 (2 ^ 64 - 1) ms
      if validId (String.ofList id) then some (ms, String.ofList id) else none
    match read with
    | some key => .ok (some key)
    | none =>
        .error (.invalidArgument ("page_token '" ++ page.pageToken
          ++ "' was not issued by this list"))

-----------------------------------------------------------------------------------------
-- Listing
-----------------------------------------------------------------------------------------

/-- The records under a root, each in the file of its id. -/
structure Directory where
  records : List Record
  distinct : (records.map Record.id).Nodup
  named : ∀ rec ∈ records, validId rec.id
  bounded : ∀ rec ∈ records, rec.createdMs < 2 ^ 64

/-- The record as a reader may see it. -/
def settled (alive : Int × Nat → Bool) (now : Nat) (rec : Record) : Record :=
  if rec.state = .running ∧ !alive rec.owner then rec.interrupt now else rec

theorem settled_id (alive : Int × Nat → Bool) (now : Nat) (rec : Record)
    : (settled alive now rec).id = rec.id := by
  unfold settled
  split <;> rfl

theorem settled_createdMs (alive : Int × Nat → Bool) (now : Nat) (rec : Record)
    : (settled alive now rec).createdMs = rec.createdMs := by
  unfold settled
  split <;> rfl

/-- What is left once every record has been settled. -/
def Directory.settled (directory : Directory) (alive : Int × Nat → Bool) (now : Nat) : Directory where
  records := directory.records.map (Operations.settled alive now)
  distinct := by
    rw [List.map_map, show Record.id ∘ Operations.settled alive now = Record.id from
      funext (settled_id alive now)]
    exact directory.distinct
  named := by
    intro rec member
    obtain ⟨before, inside, rfl⟩ := List.mem_map.mp member
    rw [settled_id]
    exact directory.named before inside
  bounded := by
    intro rec member
    obtain ⟨before, inside, rfl⟩ := List.mem_map.mp member
    rw [settled_createdMs]
    exact directory.bounded before inside

/-- What records are sorted by. -/
def Record.key (rec : Record) : Nat ×ₗ String := toLex (rec.createdMs, rec.id)

/-- The token of a page that ends with the record. -/
def Record.token (rec : Record) : String := toString rec.createdMs ++ "-" ++ rec.id

structure Listing where
  operations : List Record
  nextPageToken : String
  links : List (String × String)
  deriving DecidableEq, Repr

def href (req : ListOperationsRequest) (pageSize : Int) (token : String) : String :=
  let q := (if req.activeOnly then ["active_only=true"] else [])
    ++ (if pageSize ≠ 0 then ["page.page_size=" ++ toString pageSize] else [])
    ++ if token ≠ "" then ["page.page_token=" ++ token] else []
  if q.isEmpty then "/v1/operations" else "/v1/operations?" ++ "&".intercalate q

def links (req : ListOperationsRequest) (page : PageRequest) (next : String)
    : List (String × String) :=
  [("self", href req page.pageSize page.pageToken), ("root", "/v1")]
    ++ if next ≠ "" then [("next", href req page.pageSize next)] else []

/-- Every record there is, oldest first, settled. The ones that are shown are those a filter on
running ones leaves.
-/
def visible (alive : Int × Nat → Bool) (now : Nat) (directory : Directory) (activeOnly : Bool)
    : List Record :=
  ((byAge directory.records).map (settled alive now)).filter fun rec =>
    !(activeOnly && rec.state ≠ .running)

/-- The token of the next page, empty when there is none. -/
def nextToken (more : Bool) (shown : List Record) : String :=
  match more, shown.getLast? with
  | true, some last => last.token
  | _, _ => ""

/-- The operations, oldest first, one page at a time. -/
def listIn (alive : Int × Nat → Bool) (now : Nat) (directory : Directory)
    (req : ListOperationsRequest) : Except Status (Listing × Directory) := do
  let page := req.page.getD ⟨0, ""⟩
  let size ← page.size
  let after ← page.after
  let records := (visible alive now directory req.activeOnly).filter fun rec =>
    !after.any fun last => decide (rec.key ≤ toLex last)
  let more : Bool := size < records.length
  let shown := records.take size
  let next := nextToken more shown
  return (⟨shown, next, links req page next⟩, directory.settled alive now)

-----------------------------------------------------------------------------------------
-- One page
-----------------------------------------------------------------------------------------

variable {alive : Int × Nat → Bool} {activeOnly : Bool} {pageSize : Int}

theorem settled_key (now : Nat) (rec : Record) : (settled alive now rec).key = rec.key := by
  rw [Record.key, settled_createdMs, settled_id, Record.key]

theorem byAge_perm (records : List Record) : (byAge records).Perm records :=
  List.perm_insertionSort _ _

theorem byAge_le (records : List Record)
    : (byAge records).Pairwise fun a b => a.key ≤ b.key := by
  have order : ∀ a b : Record,
      (a.createdMs < b.createdMs ∨ a.createdMs = b.createdMs ∧ a.id ≤ b.id) ↔ a.key ≤ b.key := by
    intro a b
    exact (Prod.Lex.toLex_le_toLex (x := (a.createdMs, a.id)) (y := (b.createdMs, b.id))).symm
  have total : Std.Total fun a b : Record =>
      a.createdMs < b.createdMs ∨ a.createdMs = b.createdMs ∧ a.id ≤ b.id := by
    refine ⟨fun a b => ?_⟩
    simp only [order]
    exact le_total a.key b.key
  have trans : IsTrans Record fun a b =>
      a.createdMs < b.createdMs ∨ a.createdMs = b.createdMs ∧ a.id ≤ b.id := by
    refine ⟨fun a b c => ?_⟩
    simp only [order]
    exact le_trans
  exact (List.pairwise_insertionSort _ _).imp fun {a b} => (order a b).mp

/-- Records of distinct ids have distinct keys. -/
theorem key_ne_of_id_ne {a b : Record} (other : a.id ≠ b.id) : a.key ≠ b.key := by
  intro same
  exact other (congrArg (fun k => (ofLex k).2) same)

/-- What is shown is strictly in order. -/
theorem visible_ordered (now : Nat) (directory : Directory)
    : Ordered Record.key (visible alive now directory activeOnly) := by
  refine List.Pairwise.filter _ (List.pairwise_map.mpr ?_)
  have ids : ((byAge directory.records).map Record.id).Nodup :=
    ((byAge_perm directory.records).map Record.id).nodup_iff.mpr directory.distinct
  have both := (byAge_le directory.records).and (List.pairwise_map.mp ids)
  refine both.imp fun {a b} apart => ?_
  rw [settled_key, settled_key]
  exact lt_of_le_of_ne apart.1 (key_ne_of_id_ne apart.2)

/-- The token that goes on behind a key, the empty one for none. -/
def tokenOf : Option (Nat ×ₗ String) → String
  | none => ""
  | some key => toString (ofLex key).1 ++ "-" ++ (ofLex key).2

/-- A key that a token can carry. -/
def Issued (after : Option (Nat ×ₗ String)) : Prop :=
  ∀ key ∈ after, validId (ofLex key).2 ∧ (ofLex key).1 < 2 ^ 64

theorem tokenOf_eq_empty_iff {after : Option (Nat ×ₗ String)} : tokenOf after = "" ↔ after = none := by
  cases after with
  | none => simp [tokenOf]
  | some key => simp [tokenOf]

/-- A token that was issued is read back as the key it was made of. -/
theorem after_tokenOf {after : Option (Nat ×ₗ String)} (issued : Issued after) (size : Int)
    : (PageRequest.mk size (tokenOf after)).after = .ok (after.map ofLex) := by
  cases after with
  | none => rfl
  | some key =>
      obtain ⟨valid, small⟩ := issued key rfl
      have text : (tokenOf (some key)).toList
          = decimal (ofLex key).1 ++ '-' :: (ofLex key).2.toList := by
        simp [tokenOf]
      have absent : '-' ∉ decimal (ofLex key).1 := not_mem_decimal (.inl (by decide))
      have nonempty : tokenOf (some key) ≠ "" := fun empty =>
        absurd (tokenOf_eq_empty_iff.mp empty) (by simp)
      rw [PageRequest.after, if_neg nonempty]
      simp only [text, splitOnce_append _ absent, Option.bind_eq_bind, Option.bind_some,
        parseUnsigned_decimal (show (ofLex key).1 ≤ 2 ^ 64 - 1 by omega), String.ofList_toList,
        if_pos valid, Option.map_some, Prod.mk.eta]

/-- The request for the page behind a token. -/
def request (activeOnly : Bool) (pageSize : Int) (token : String) : ListOperationsRequest :=
  ⟨some ⟨pageSize, token⟩, activeOnly⟩

/-- The number of items on a page of an admitted size. -/
def sizeOf (pageSize : Int) : Nat :=
  if pageSize = 0 then defaultPage else min pageSize.toNat maxPage

theorem size_of_admitted (admitted : 0 ≤ pageSize) (token : String)
    : (PageRequest.mk pageSize token).size = .ok (sizeOf pageSize) := by
  rw [PageRequest.size, sizeOf]
  by_cases zero : pageSize = 0
  · simp [zero]
  · simp [zero, not_lt.mpr admitted]

theorem sizeOf_pos (admitted : 0 ≤ pageSize) : 0 < sizeOf pageSize := by
  rw [sizeOf]
  split
  · decide
  case isFalse other =>
    have positive : 0 < pageSize.toNat := by omega
    exact lt_min positive (by decide)

theorem notBefore_eq (after : Option (Nat ×ₗ String)) (rec : Record)
    : (!(after.map ofLex).any fun last => decide (rec.key ≤ toLex last))
      = after.all (· < rec.key) := by
  cases after with
  | none => rfl
  | some key =>
      rw [Option.map_some, Option.any_some, Option.all_some, toLex_ofLex, ← decide_not]
      exact decide_eq_decide.mpr not_le

theorem mem_visible {now : Nat} {directory : Directory} {rec : Record}
    : rec ∈ visible alive now directory activeOnly
      ↔ (∃ stored ∈ directory.records, settled alive now stored = rec)
        ∧ (activeOnly → rec.state = .running) := by
  simp only [visible, List.mem_filter, List.mem_map, (byAge_perm directory.records).mem_iff]
  refine and_congr_right fun _ => ?_
  cases activeOnly <;> simp

theorem issued_of_visible {now : Nat} {directory : Directory} {rec : Record}
    (member : rec ∈ visible alive now directory activeOnly)
    : validId rec.id ∧ rec.createdMs < 2 ^ 64 := by
  obtain ⟨⟨stored, inside, rfl⟩, -⟩ := mem_visible.mp member
  rw [settled_id, settled_createdMs]
  exact ⟨directory.named stored inside, directory.bounded stored inside⟩

/-- The next token is that of the page's last record, when there is more. -/
theorem nextToken_eq (size : Nat) (rest : List Record)
    : nextToken (decide (size < rest.length)) (rest.take size)
      = tokenOf (page Record.key size rest).2 := by
  rw [page]
  generalize rest.take size = shown
  by_cases more : size < rest.length
  · cases found : shown.getLast? with
    | none => simp [nextToken, more, found, tokenOf]
    | some last => simp [nextToken, more, found, tokenOf, Record.token, Record.key]
  · rw [if_neg more, decide_eq_false more]
    rfl

theorem issued_page {size : Nat} {rest : List Record}
    (named : ∀ rec ∈ rest, validId rec.id ∧ rec.createdMs < 2 ^ 64)
    : Issued (page Record.key size rest).2 := by
  intro key is
  rw [page] at is
  split at is
  case isFalse => cases is
  case isTrue =>
    obtain ⟨last, found, rfl⟩ := Option.map_eq_some_iff.mp is
    exact named last (List.mem_of_mem_take (List.mem_of_getLast? found))

/-- A call with a token that was issued shows the page behind it, and says where to go on. -/
theorem listIn_spec (admitted : 0 ≤ pageSize) {after : Option (Nat ×ₗ String)}
    (issued : Issued after) (now : Nat) (directory : Directory)
    : ∃ listing next,
        listIn alive now directory (request activeOnly pageSize (tokenOf after))
          = .ok (listing, directory.settled alive now)
        ∧ page Record.key (sizeOf pageSize)
            (behind Record.key after (visible alive now directory activeOnly))
          = (listing.operations, next)
        ∧ listing.nextPageToken = tokenOf next ∧ Issued next := by
  have filtered : ((visible alive now directory activeOnly).filter fun rec =>
        !(after.map ofLex).any fun last => decide (rec.key ≤ toLex last))
      = behind Record.key after (visible alive now directory activeOnly) := by
    simp only [notBefore_eq, behind]
  let rest := behind Record.key after (visible alive now directory activeOnly)
  let next := nextToken (decide (sizeOf pageSize < rest.length)) (rest.take (sizeOf pageSize))
  let req := request activeOnly pageSize (tokenOf after)
  refine ⟨⟨rest.take (sizeOf pageSize), next, links req ⟨pageSize, tokenOf after⟩ next⟩, _, ?_, rfl,
    nextToken_eq _ _, issued_page fun rec member => ?_⟩
  · simp only [listIn, request, Option.getD_some, size_of_admitted admitted,
      after_tokenOf issued, bind, Except.bind, pure, Except.pure, filtered, next, rest, req]
  · exact issued_of_visible (mem_behind.mp member).1

-----------------------------------------------------------------------------------------
-- Many pages
-----------------------------------------------------------------------------------------

/-- One call: when it was made, what it found, what it answered and what it left. -/
structure Visit where
  now : Nat
  directory : Directory
  listing : Listing
  left : Directory

/-- The calls of a caller that follows the next page tokens, the first one with the given token.
Between two of them the directory may change in any way.
-/
inductive Session (alive : Int × Nat → Bool) (activeOnly : Bool) (pageSize : Int)
    : String → List Visit → String → Prop
  | last {token : String} {visit : Visit}
      (answered : listIn alive visit.now visit.directory (request activeOnly pageSize token)
        = .ok (visit.listing, visit.left))
    : Session alive activeOnly pageSize token [visit] visit.listing.nextPageToken
  | cons {token final : String} {visit : Visit} {visits : List Visit}
      (answered : listIn alive visit.now visit.directory (request activeOnly pageSize token)
        = .ok (visit.listing, visit.left))
      (more : visit.listing.nextPageToken ≠ "")
      (rest : Session alive activeOnly pageSize visit.listing.nextPageToken visits final)
    : Session alive activeOnly pageSize token (visit :: visits) final

/-- All the operations that were listed. -/
def listed (visits : List Visit) : List Record := visits.flatMap fun visit => visit.listing.operations

/-- What a call could show, and what it did. -/
def Visit.entry (alive : Int × Nat → Bool) (activeOnly : Bool) (visit : Visit)
    : List Record × List Record :=
  (visible alive visit.now visit.directory activeOnly, visit.listing.operations)

/-- Nobody else touches the directory between the calls. -/
def Undisturbed (visits : List Visit) : Prop :=
  visits.IsChain fun visit later => visit.left.records.Perm later.directory.records

variable {token final : String} {visits : List Visit}

/-- A session is a reading of pages. -/
theorem Session.follows (admitted : 0 ≤ pageSize)
    (session : Session alive activeOnly pageSize token visits final)
    {after : Option (Nat ×ₗ String)} (issued : Issued after) (start : token = tokenOf after)
    : ∃ next, final = tokenOf next ∧ Issued next
        ∧ Follows Record.key (sizeOf pageSize) after (visits.map (Visit.entry alive activeOnly)) next
        ∧ ∀ visit ∈ visits, visit.left = visit.directory.settled alive visit.now := by
  have answer {visit : Visit} {token : String} {after : Option (Nat ×ₗ String)}
      (issued : Issued after) (start : token = tokenOf after)
      (answered : listIn alive visit.now visit.directory (request activeOnly pageSize token)
        = .ok (visit.listing, visit.left))
      : ∃ next, visit.listing.nextPageToken = tokenOf next ∧ Issued next
          ∧ page Record.key (sizeOf pageSize)
              (behind Record.key after (visible alive visit.now visit.directory activeOnly))
            = (visit.listing.operations, next)
          ∧ visit.left = visit.directory.settled alive visit.now := by
    subst start
    obtain ⟨listing, next, is, page_is, token_is, issued_next⟩ :=
      @listIn_spec alive activeOnly pageSize admitted _ issued visit.now visit.directory
    obtain ⟨rfl, left⟩ := Prod.mk.inj (Except.ok.inj (is.symm.trans answered))
    exact ⟨next, token_is, issued_next, page_is, left.symm⟩
  induction session generalizing after with
  | @last token visit answered =>
      obtain ⟨next, token_is, issued_next, page_is, left⟩ := answer issued start answered
      exact ⟨next, token_is, issued_next, .last (visible_ordered _ _) page_is,
        by simpa using left⟩
  | @cons token final visit visits answered more rest ih =>
      obtain ⟨next, token_is, issued_next, page_is, left⟩ := answer issued start answered
      obtain ⟨k, rfl⟩ : ∃ k, next = some k := by
        refine Option.ne_none_iff_exists'.mp fun none => more ?_
        rw [token_is, none]
        rfl
      obtain ⟨last, final_is, issued_last, follows, lefts⟩ := ih issued_next token_is
      exact ⟨last, final_is, issued_last, .cons (visible_ordered _ _) page_is follows,
        List.forall_mem_cons.mpr ⟨left, lefts⟩⟩

/-- A record that is asked for: any one, or one that runs and whose owner is there. -/
def Matches (alive : Int × Nat → Bool) (activeOnly : Bool) (rec : Record) : Prop :=
  activeOnly → rec.state = .running ∧ alive rec.owner

theorem matches_iff {now : Nat} {rec : Record}
    : Matches alive activeOnly rec ↔ (activeOnly → (settled alive now rec).state = .running) := by
  refine forall_congr' fun _ => ?_
  unfold settled
  by_cases running : rec.state = .running <;> cases alive rec.owner <;>
    simp [running, Record.interrupt]

/-- What is shown of a directory: its matching records, settled. -/
theorem mem_visible_iff {now : Nat} {directory : Directory} {rec : Record}
    : rec ∈ visible alive now directory activeOnly
      ↔ ∃ stored ∈ directory.records, Matches alive activeOnly stored
        ∧ settled alive now stored = rec := by
  rw [mem_visible]
  constructor
  · rintro ⟨⟨stored, member, rfl⟩, running⟩
    exact ⟨stored, member, matches_iff.mpr running, rfl⟩
  · rintro ⟨stored, member, matching, rfl⟩
    exact ⟨⟨stored, member, rfl⟩, matches_iff.mp matching⟩

/-- The operation is there in every call, created when it was, and matches. -/
def Throughout (alive : Int × Nat → Bool) (activeOnly : Bool) (visits : List Visit) (id : String)
    (createdMs : Nat) : Prop :=
  ∀ visit ∈ visits, ∃ rec ∈ visit.directory.records,
    rec.id = id ∧ rec.createdMs = createdMs ∧ Matches alive activeOnly rec

/-- Settling again changes nothing. -/
theorem settled_settled (now now' : Nat) (rec : Record)
    : settled alive now' (settled alive now rec) = settled alive now rec := by
  by_cases gone : rec.state = .running ∧ !alive rec.owner
  · simp [settled, gone, Record.interrupt]
  · have kept : settled alive now rec = rec := if_neg gone
    rw [kept, settled, if_neg gone]

/-- What can be shown is the same in the next call when nobody touched the directory. -/
theorem visible_undisturbed {now now' : Nat} {directory directory' : Directory}
    (perm : (directory.settled alive now).records.Perm directory'.records)
    : visible alive now' directory' activeOnly = visible alive now directory activeOnly := by
  have already : directory'.records.map (settled alive now') = directory'.records := by
    refine (List.map_congr_left fun rec member => ?_).trans (List.map_id _)
    obtain ⟨before, -, rfl⟩ := List.mem_map.mp (perm.mem_iff.mpr member)
    exact settled_settled now now' before
  have same : ((byAge directory'.records).map (settled alive now')).Perm
      ((byAge directory.records).map (settled alive now)) := by
    refine ((byAge_perm directory'.records).map _).trans ?_
    rw [already]
    exact perm.symm.trans ((byAge_perm directory.records).map _).symm
  refine List.Perm.eq_of_pairwise ?_ (visible_ordered now' directory')
    (visible_ordered now directory) (same.filter _)
  exact fun a b _ _ below above => absurd (below.trans above) (lt_irrefl _)

theorem visible_of_undisturbed {first : Visit} {visits : List Visit}
    (undisturbed : Undisturbed (first :: visits))
    (lefts : ∀ visit ∈ first :: visits, visit.left = visit.directory.settled alive visit.now)
    : ∀ visit ∈ first :: visits, visible alive visit.now visit.directory activeOnly
        = visible alive first.now first.directory activeOnly := by
  induction visits generalizing first with
  | nil =>
      intro visit member
      rw [List.mem_singleton.mp member]
  | cons second rest ih =>
      obtain ⟨perm, chain⟩ := List.isChain_cons_cons.mp undisturbed
      rw [lefts first List.mem_cons_self] at perm
      have step := ih chain fun visit member => lefts visit (List.mem_cons_of_mem _ member)
      refine List.forall_mem_cons.mpr ⟨rfl, fun visit member => ?_⟩
      rw [step visit member, visible_undisturbed perm]

theorem shownIn_entries (visits : List Visit)
    : shownIn (visits.map (Visit.entry alive activeOnly)) = listed visits := by
  rw [shownIn, listed, List.flatMap_map]
  rfl

/-- Of an operation that is there throughout, at most one record is listed. -/
theorem listed_once {id : String} {createdMs : Nat} (ordered : Ordered Record.key (listed visits))
    (shown : ∀ visit ∈ visits, ∀ rec ∈ visit.listing.operations,
      rec ∈ visible alive visit.now visit.directory activeOnly)
    (throughout : Throughout alive activeOnly visits id createdMs)
    : ((listed visits).filter fun rec => rec.id = id).length ≤ 1 := by
  have keys : ∀ rec ∈ (listed visits).filter (fun rec => rec.id = id),
      rec.key = toLex (createdMs, id) := by
    intro rec member
    obtain ⟨inside, own⟩ := List.mem_filter.mp member
    obtain ⟨visit, called, here⟩ := List.mem_flatMap.mp inside
    obtain ⟨stored, there, -, rfl⟩ := mem_visible_iff.mp (shown visit called rec here)
    obtain ⟨other, there', own', created, -⟩ := throughout visit called
    rw [settled_id, decide_eq_true_eq] at own
    have same : stored = other :=
      List.inj_on_of_nodup_map visit.directory.distinct there there' (own.trans own'.symm)
    rw [settled_key, same, Record.key, own', created]
  have apart := ordered.filter fun rec => decide (rec.id = id)
  generalize (listed visits).filter (fun rec => decide (rec.id = id)) = own at keys apart
  match own with
  | [] => simp
  | [_] => simp
  | a :: b :: rest =>
      have below := (List.pairwise_cons.mp apart).1 b List.mem_cons_self
      rw [keys a List.mem_cons_self, keys b (by simp)] at below
      exact absurd below (lt_irrefl _)

/-- Whatever is added or pruned between the pages, the operations are listed in order, none that is
there throughout is repeated, and none is skipped once the pages have ended. Over a directory that
nobody else touches the pages end, with every matching operation listed. A token that was issued
is always answered.
-/
theorem listing_complete (admitted : 0 ≤ pageSize)
    (session : Session alive activeOnly pageSize "" visits final)
    : Ordered Record.key (listed visits)
      ∧ (∀ id createdMs, Throughout alive activeOnly visits id createdMs →
        ((listed visits).filter fun rec => rec.id = id).length ≤ 1
        ∧ (final = "" → ((listed visits).filter fun rec => rec.id = id).length = 1))
      ∧ (∀ first rest, visits = first :: rest → Undisturbed visits →
        (final = "" → listed visits = visible alive first.now first.directory activeOnly)
        ∧ rest.length * sizeOf pageSize
          ≤ (visible alive first.now first.directory activeOnly).length)
      ∧ ∀ now directory, ∃ answer,
        listIn alive now directory (request activeOnly pageSize final) = .ok answer := by
  obtain ⟨next, rfl, issued, follows, lefts⟩ :=
    session.follows admitted (show Issued none by simp [Issued]) rfl
  have ordered := follows.ordered
  rw [shownIn_entries] at ordered
  have positive := sizeOf_pos admitted
  have shown : ∀ visit ∈ visits, ∀ rec ∈ visit.listing.operations,
      rec ∈ visible alive visit.now visit.directory activeOnly :=
    fun visit member => follows.subset _ (List.mem_map_of_mem member)
  refine ⟨ordered, fun id createdMs throughout => ?_, ?_, fun now directory => ?_⟩
  · have once := listed_once ordered shown throughout
    refine ⟨once, fun finished => le_antisymm once ?_⟩
    have there : ∀ entry ∈ visits.map (Visit.entry alive activeOnly),
        ∃ rec ∈ entry.1, rec.key = toLex (createdMs, id) := by
      intro entry member
      obtain ⟨visit, called, rfl⟩ := List.mem_map.mp member
      obtain ⟨stored, there, own, created, matching⟩ := throughout visit called
      refine ⟨_, mem_visible_iff.mpr ⟨stored, there, matching, rfl⟩, ?_⟩
      rw [settled_key, Record.key, own, created]
    obtain ⟨rec, member, own⟩ := follows.complete positive (by simp) there
      (by rw [tokenOf_eq_empty_iff.mp finished]; simp)
    rw [shownIn_entries] at member
    refine List.length_pos_of_mem (List.mem_filter.mpr ⟨member, ?_⟩)
    exact decide_eq_true (congrArg (fun k => (ofLex k).2) own)
  · rintro first rest rfl undisturbed
    have same := @visible_of_undisturbed alive activeOnly _ _ undisturbed lefts
    have fixed : ∀ entry ∈ (first :: rest).map (Visit.entry alive activeOnly),
        entry.1 = visible alive first.now first.directory activeOnly := by
      intro entry member
      obtain ⟨visit, called, rfl⟩ := List.mem_map.mp member
      exact same visit called
    have everything : behind Record.key none (visible alive first.now first.directory activeOnly)
        = visible alive first.now first.directory activeOnly := by
      simp [behind]
    refine ⟨fun finished => ?_, ?_⟩
    · rw [← @shownIn_entries alive activeOnly,
        follows.all_of_fixed positive (tokenOf_eq_empty_iff.mp finished) fixed, everything]
    · have bound := follows.length_le fixed
      rw [everything] at bound
      simpa using bound
  · obtain ⟨listing, next, is, -⟩ := @listIn_spec alive activeOnly pageSize
      admitted next issued now directory
    exact ⟨_, is⟩

/-- Two operations of one instant, one of them of a process that is gone. -/
def twoOperations : Directory where
  records :=
    [⟨"op-2", .running, "Network/b", "create", "", 5, none, none, "", "", 40, 7⟩,
      ⟨"op-1", .succeeded, "Network/a", "create", "", 5, some 6, none, "", "", 40, 7⟩]
  distinct := by decide
  named := by decide
  bounded := by decide

/-- The pages of one operation each. -/
def twoPages : List Visit :=
  let left := twoOperations.settled (fun _ => false) 9
  let listing shown token next : Listing :=
    ⟨shown, next, links (request false 1 token) ⟨1, token⟩ next⟩
  [ { now := 9, directory := twoOperations, left,
      listing := listing (twoOperations.records.drop 1) "" "5-op-1" },
    { now := 10, directory := left, left := left.settled (fun _ => false) 10,
      listing := listing (left.records.take 1) "5-op-1" "" } ]

theorem listing_complete_twoPages
    : Ordered Record.key (listed twoPages)
      ∧ (∀ id createdMs, Throughout (fun _ => false) false twoPages id createdMs →
        ((listed twoPages).filter fun rec => rec.id = id).length ≤ 1
        ∧ ("" = "" → ((listed twoPages).filter fun rec => rec.id = id).length = 1))
      ∧ (∀ first rest, twoPages = first :: rest → Undisturbed twoPages →
        ("" = "" → listed twoPages = visible (fun _ => false) first.now first.directory false)
        ∧ rest.length * sizeOf 1
          ≤ (visible (fun _ => false) first.now first.directory false).length)
      ∧ ∀ now directory, ∃ answer,
        listIn (fun _ => false) now directory (request false 1 "") = .ok answer :=
  listing_complete (by decide) (.cons rfl (by decide) (.last rfl))

end Delonix.Operations
