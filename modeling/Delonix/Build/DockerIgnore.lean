import Delonix.Library.Utf8
import Delonix.Library.Words

/-! Which paths of the build context a copy never sees. The rules of a `.dockerignore` are matched
segment by segment, and a segment byte by byte. A walk over the context leaves a directory out only
when nothing below it can be re-included.
-/

namespace Delonix.Build

open Delonix.Library.Text
open Delonix.Library.Utf8
open Delonix.Library.Words

/-- The members of a class against a byte, up to its closing bracket: whether one of them is the
byte, and the pattern behind the bracket.
-/
def classMembers (c : UInt8) (first found : Bool) : List UInt8 → Option (Bool × List UInt8)
  | [] => none
  | [lo] =>
      if lo = ']'.toUInt8 && !first then some (found, []) else none
  | [lo, next] =>
      if lo = ']'.toUInt8 && !first then some (found, [next])
      else classMembers c false (found || lo = c) [next]
  | lo :: next :: hi :: rest =>
      if lo = ']'.toUInt8 && !first then some (found, next :: hi :: rest)
      else if next = '-'.toUInt8 && hi ≠ ']'.toUInt8 then
        classMembers c false (found || (lo ≤ c && c ≤ hi)) rest
      else classMembers c false (found || lo = c) (next :: hi :: rest)

/-- A class after its opening bracket: whether the byte is in it, and the pattern behind it, or
nothing when it never closes.
-/
def matchClass (pat : List UInt8) (c : UInt8) : Option (Bool × List UInt8) :=
  match pat with
  | mark :: rest =>
      if mark = '!'.toUInt8 || mark = '^'.toUInt8 then
        (classMembers c true false rest).map fun (found, after) => (!found, after)
      else classMembers c true false (mark :: rest)
  | [] => none

theorem classMembers_length {c : UInt8} {first found ok : Bool} {pat rest : List UInt8}
    (read : classMembers c first found pat = some (ok, rest))
    : rest.length < pat.length := by
  fun_induction classMembers c first found pat <;> simp_all <;> omega

theorem matchClass_length {pat rest : List UInt8} {c : UInt8} {ok : Bool}
    (read : matchClass pat c = some (ok, rest))
    : rest.length < pat.length := by
  unfold matchClass at read
  split at read
  case h_1 mark tail =>
    split at read
    · obtain ⟨⟨found, after⟩, is, same⟩ := Option.map_eq_some_iff.mp read
      obtain ⟨-, rfl⟩ := Prod.mk.inj same
      exact (classMembers_length is).trans (Nat.lt_succ_self _)
    · exact classMembers_length read
  case h_2 => cases read

/-- Wildcard match of one segment. -/
def matchSegment (pat s : List UInt8) : Bool :=
  match pat with
  | [] => s.isEmpty
  | p :: rest =>
      if p = '*'.toUInt8 then (List.range (s.length + 1)).any fun k => matchSegment rest (s.drop k)
      else if p = '?'.toUInt8 then !s.isEmpty && matchSegment rest s.tail
      else if p = '['.toUInt8 then
        match s with
        | [] => false
        | c :: tail =>
            match _read : matchClass rest c with
            | some (ok, after) => ok && matchSegment after tail
            | none => c = '['.toUInt8 && matchSegment rest tail
      else
        match rest with
        | next :: rest' =>
            if p = '\\'.toUInt8 then s.head? = some next && matchSegment rest' s.tail
            else s.head? = some p && matchSegment (next :: rest') s.tail
        | [] => s.head? = some p && matchSegment [] s.tail
termination_by pat.length
decreasing_by
  all_goals simp only [List.length_cons, List.length_nil]
  case _ => omega
  case _ => omega
  case _ =>
    have := matchClass_length _read
    omega
  all_goals omega

abbrev Segment := List Char

def anyDepth : Segment := ['*', '*']

/-- What one part between slashes does to the segments before it. -/
def cleanStep (out : List Segment) (seg : Segment) : List Segment :=
  if seg = [] || seg = ['.'] then out
  else if seg = ['.', '.'] then out.dropLast
  else out ++ [seg]

/-- The cleaned segments of a pattern or a path. -/
def clean (p : List Char) : List Segment := (p.splitOn '/').foldl cleanStep []

/-- Can the pattern match some path strictly below the directory? -/
def prefixMatches : List Segment → List Segment → Bool
  | [], _ => false
  | p :: pat, dir =>
      if p = anyDepth then true
      else
        match dir with
        | [] => true
        | d :: dir => matchSegment (encode p) (encode d) && prefixMatches pat dir

/-- Whole-path match of pattern segments against path segments. -/
def matchSegments : List Segment → List Segment → Bool
  | [], path => path.isEmpty
  | p :: pat, path =>
      if p = anyDepth then
        (List.range (path.length + 1)).any fun skip => matchSegments pat (path.drop skip)
      else
        match path with
        | [] => false
        | s :: path => matchSegment (encode p) (encode s) && matchSegments pat path

/-- One cleaned pattern. An exception re-includes instead of excluding. -/
structure Rule where
  segments : List Segment
  exception : Bool
  deriving DecidableEq, Repr

/-- The rule a line of the file stands for. -/
def ruleOf (line : List Char) : Option Rule :=
  let line := trim line
  if line.isEmpty || line.head? = some '#' then none
  else
    let (exception, pat) := match stripStart ['!'] line with
      | some rest => (true, trim rest)
      | none => (false, line)
    let segments := clean pat
    if segments.isEmpty then none else some ⟨segments, exception⟩

/-- The rules of a `.dockerignore`. -/
def parseIgnore (text : List Char) : List Rule := (lines text).filterMap ruleOf

/-- Could an exception re-include something inside the directory? -/
def mayReincludeUnder (rules : List Rule) (rel : List Char) : Bool :=
  (rules.filter (·.exception)).any fun rule => prefixMatches rule.segments (clean rel)

/-- The path matches, or one of its parent directories does. -/
def hits (rule : Rule) (path : List Segment) : Bool :=
  (List.range path.length).any fun n => matchSegments rule.segments (path.take (n + 1))

/-- Is the path, relative to the build context, excluded? -/
def isExcluded (rules : List Rule) (rel : List Char) : Bool :=
  let path := clean rel
  if path.isEmpty then false
  else rules.foldl (fun excluded rule => if hits rule path then !rule.exception else excluded) false

/-- The name of a directory entry. -/
structure EntryName where
  text : List Char
  plain : '/' ∉ text ∧ text ≠ [] ∧ text ≠ ['.'] ∧ text ≠ ['.', '.']

/-- A file or a link, or a directory with its entries in the order they are read. -/
inductive Entry where
  | leaf (name : EntryName)
  | dir (name : EntryName) (entries : List Entry)

def Entry.name : Entry → EntryName
  | .leaf name => name
  | .dir name _ => name

/-- Joins a context-relative path and a child name. -/
def joinRel (rel name : List Char) : List Char :=
  let base := rel.rdropWhile (· = '/')
  if base = [] || base = ['.'] then name else base ++ '/' :: name

/-- Should the walk leave the path out? -/
def ignored (ignore : Option (List Rule)) (rel : List Char) (isDir : Bool) : Bool :=
  match ignore with
  | some rules => isExcluded rules rel && !(isDir && mayReincludeUnder rules rel)
  | none => false

mutual

/-- The files a copy of the directory takes, each as the names that lead to it. -/
def copyDirAll (ignore : Option (List Rule)) (rel : List Char)
    : List Entry → List (List EntryName)
  | [] => []
  | entry :: rest =>
      copyEntry ignore (joinRel rel entry.name.text) entry ++ copyDirAll ignore rel rest

def copyEntry (ignore : Option (List Rule)) (child : List Char) : Entry → List (List EntryName)
  | .leaf name => if ignored ignore child false then [] else [[name]]
  | .dir name entries =>
      if ignored ignore child true then []
      else (copyDirAll ignore child entries).map (name :: ·)

end

mutual

/-- Every file below the directory: its path in the context, and the names that lead to it. -/
def filesBelow (rel : List Char) : List Entry → List (List Char × List EntryName)
  | [] => []
  | entry :: rest => filesAt (joinRel rel entry.name.text) entry ++ filesBelow rel rest

def filesAt (child : List Char) : Entry → List (List Char × List EntryName)
  | .leaf name => [(child, [name])]
  | .dir name entries => (filesBelow child entries).map fun file => (file.1, name :: file.2)

end

variable {rules : List Rule} {d p : List Char}

/-- The path lies strictly below the directory. -/
def Below (d p : List Char) : Prop := ∃ rest, rest ≠ [] ∧ clean p = clean d ++ rest

/-- A pattern that matches a path strictly below a directory opens the directory. -/
theorem prefixMatches_of_below {pat dir rest : List Segment} (more : rest ≠ [])
    (matched : matchSegments pat (dir ++ rest) = true)
    : prefixMatches pat dir = true := by
  induction pat generalizing dir with
  | nil => simp [matchSegments, more] at matched
  | cons p pat ih =>
      by_cases deep : p = anyDepth
      · simp [prefixMatches, deep]
      · cases dir with
        | nil => simp [prefixMatches]
        | cons d dir =>
            rw [List.cons_append, matchSegments, if_neg deep, Bool.and_eq_true] at matched
            simp [prefixMatches, deep, matched.1, ih matched.2]

theorem hits_iff {rule : Rule} {path : List Segment}
    : hits rule path = true
      ↔ ∃ n < path.length, matchSegments rule.segments (path.take (n + 1)) = true := by
  simp [hits]

/-- A rule that hits a directory hits what lies below it. -/
theorem hits_append {rule : Rule} {dir rest : List Segment} (hit : hits rule dir = true)
    : hits rule (dir ++ rest) = true := by
  obtain ⟨n, inside, matched⟩ := hits_iff.mp hit
  refine hits_iff.mpr ⟨n, by rw [List.length_append]; omega, ?_⟩
  rwa [List.take_append_of_le_length (by omega)]

/-- A rule that hits only below a directory opens it. -/
theorem opens_of_hits {rule : Rule} {dir rest : List Segment} (hit : hits rule (dir ++ rest) = true)
    (missed : hits rule dir = false)
    : prefixMatches rule.segments dir = true := by
  obtain ⟨n, inside, matched⟩ := hits_iff.mp hit
  have beyond : dir.length < n + 1 := by
    by_contra within
    rw [List.take_append_of_le_length (by omega)] at matched
    have hit : hits rule dir = true := hits_iff.mpr ⟨n, by omega, matched⟩
    simp [missed] at hit
  rw [List.take_append, List.take_of_length_le (by omega)] at matched
  refine prefixMatches_of_below ?_ matched
  intro empty
  rw [List.take_eq_nil_iff] at empty
  rw [List.length_append] at inside
  rcases empty with zero | none
  · omega
  · simp [none] at inside
    omega

/-- The verdict of the rules so far on a path. -/
def verdict (path : List Segment) (excluded : Bool) (rules : List Rule) : Bool :=
  rules.foldl (fun excluded rule => if hits rule path then !rule.exception else excluded) excluded

/-- Where no exception opens a directory, what excludes it excludes what lies below it: an
exception hits there only if it hits the directory, and the other rules only add to the hits.
-/
theorem verdict_below {dir rest : List Segment} {rules : List Rule}
    (closed : ∀ rule ∈ rules, rule.exception → prefixMatches rule.segments dir = false)
    {excluded excluded' : Bool} (carried : excluded = true → excluded' = true)
    (out : verdict dir excluded rules = true)
    : verdict (dir ++ rest) excluded' rules = true := by
  induction rules generalizing excluded excluded' with
  | nil => exact carried out
  | cons rule rules ih =>
      refine ih (fun other member => closed other (List.mem_cons_of_mem _ member)) ?_ out
      by_cases hit : hits rule dir = true
      · simp [hit, hits_append hit]
      · intro before
        simp only [hit] at before
        by_cases below : hits rule (dir ++ rest) = true
        · simp only [below, if_true, Bool.not_eq_true']
          by_contra exception
          have opened := opens_of_hits below (by simpa using hit)
          rw [closed rule List.mem_cons_self (by simpa using exception)] at opened
          contradiction
        · simp only [below]
          exact carried before

/-- What lies below an excluded directory that no exception opens is excluded. -/
theorem isExcluded_below (out : isExcluded rules d = true)
    (closed : mayReincludeUnder rules d = false) (below : Below d p)
    : isExcluded rules p = true := by
  obtain ⟨rest, more, is⟩ := below
  rw [isExcluded] at out ⊢
  by_cases root : (clean d).isEmpty = true
  · simp [root] at out
  · rw [if_neg root] at out
    rw [is, if_neg (by simp [more])]
    refine verdict_below (fun rule member exception => ?_) id out
    rw [mayReincludeUnder, List.any_eq_false] at closed
    exact Bool.eq_false_iff.mpr (closed rule (List.mem_filter.mpr ⟨member, exception⟩))

theorem clean_append (front back : List Char)
    : clean (front ++ '/' :: back) = (back.splitOn '/').foldl cleanStep (clean front) := by
  rw [clean, List.splitOn_append_cons_self, List.foldl_append, clean]

theorem clean_name (out : List Segment) (name : EntryName)
    : (name.text.splitOn '/').foldl cleanStep out = out ++ [name.text] := by
  obtain ⟨slashless, nonempty, dot, dots⟩ := name.plain
  rw [List.splitOn_eq_singleton slashless, List.foldl_cons, List.foldl_nil, cleanStep]
  simp [nonempty, dot, dots]

theorem clean_slashes (front slashes : List Char) (all : ∀ c ∈ slashes, c = '/')
    : clean (front ++ slashes) = clean front := by
  induction slashes generalizing front with
  | nil => rw [List.append_nil]
  | cons c slashes ih =>
      obtain rfl := all c List.mem_cons_self
      have rest := fun c member => all c (List.mem_cons_of_mem _ member)
      rw [List.append_cons, ih _ rest, clean_append]
      simp [cleanStep]

/-- A child lies one segment below its directory. -/
theorem clean_joinRel (rel : List Char) (name : EntryName)
    : clean (joinRel rel name.text) = clean rel ++ [name.text] := by
  have own : clean name.text = [name.text] := clean_name [] name
  have base : clean (rel.rdropWhile (· = '/')) = clean rel := by
    have split : rel = rel.rdropWhile (· = '/') ++ rel.rtakeWhile (· = '/') :=
      List.rdropWhile_append_rtakeWhile.symm
    conv_rhs => rw [split]
    refine (clean_slashes _ _ fun c member => ?_).symm
    simpa using List.mem_rtakeWhile_imp member
  rw [joinRel, ← base]
  by_cases root : rel.rdropWhile (· = '/') = [] ∨ rel.rdropWhile (· = '/') = ['.']
  · rw [if_pos (by simpa using root), own]
    have none : ∀ base : List Char, base = [] ∨ base = ['.'] → clean base = [] := by
      rintro base (rfl | rfl) <;> decide
    rw [none _ root, List.nil_append]
  · rw [if_neg (by simpa using root), clean_append, clean_name]

/-- The files that testing every path takes. -/
def tested (rules : List Rule) (files : List (List Char × List EntryName)) : List (List EntryName) :=
  (files.filter fun file => !isExcluded rules file.1).map Prod.snd

theorem tested_append (rules : List Rule) (front back : List (List Char × List EntryName))
    : tested rules (front ++ back) = tested rules front ++ tested rules back := by
  rw [tested, List.filter_append, List.map_append, tested, tested]

theorem tested_map (rules : List Rule) (name : EntryName)
    (files : List (List Char × List EntryName))
    : tested rules (files.map fun file => (file.1, name :: file.2))
      = (tested rules files).map (name :: ·) := by
  simp [tested, List.filter_map, Function.comp_def]

mutual

theorem below_of_mem_filesBelow {rel : List Char} {entries : List Entry}
    {file : List Char × List EntryName} (member : file ∈ filesBelow rel entries)
    : Below rel file.1 := by
  cases entries with
  | nil => cases member
  | cons entry rest =>
      rw [filesBelow] at member
      rcases List.mem_append.mp member with here | later
      · obtain ⟨more, is⟩ := below_of_mem_filesAt here
        exact ⟨entry.name.text :: more, by simp, by rw [is, clean_joinRel]; simp⟩
      · exact below_of_mem_filesBelow later

/-- A file is found at its own path or below it. -/
theorem below_of_mem_filesAt {child : List Char} {entry : Entry}
    {file : List Char × List EntryName} (member : file ∈ filesAt child entry)
    : ∃ more, clean file.1 = clean child ++ more := by
  cases entry with
  | leaf name =>
      rw [filesAt, List.mem_singleton] at member
      exact ⟨[], by rw [member, List.append_nil]⟩
  | dir name entries =>
      rw [filesAt] at member
      obtain ⟨inner, inside, rfl⟩ := List.mem_map.mp member
      obtain ⟨more, -, is⟩ := below_of_mem_filesBelow inside
      exact ⟨more, is⟩

end

mutual

/-- The walk takes the files that testing every path takes. -/
theorem copyDirAll_eq (rules : List Rule) (rel : List Char) (entries : List Entry)
    : copyDirAll (some rules) rel entries = tested rules (filesBelow rel entries) := by
  cases entries with
  | nil => rfl
  | cons entry rest =>
      rw [copyDirAll, filesBelow, tested_append, copyEntry_eq, copyDirAll_eq]

theorem copyEntry_eq (rules : List Rule) (child : List Char) (entry : Entry)
    : copyEntry (some rules) child entry = tested rules (filesAt child entry) := by
  cases entry with
  | leaf name =>
      cases out : isExcluded rules child <;> simp [copyEntry, filesAt, tested, ignored, out]
  | dir name entries =>
      rw [copyEntry, filesAt, tested_map, ← copyDirAll_eq rules child entries]
      by_cases out : ignored (some rules) child true = true
      · obtain ⟨excluded, closed⟩ : isExcluded rules child = true
            ∧ mayReincludeUnder rules child = false := by
          simpa [ignored] using out
        have nothing : tested rules (filesBelow child entries) = [] := by
          rw [tested, List.map_eq_nil_iff, List.filter_eq_nil_iff]
          intro file member
          simp [isExcluded_below excluded closed (below_of_mem_filesBelow member)]
        rw [if_pos out, copyDirAll_eq, nothing, List.map_nil]
      · rw [if_neg out]

end

/-- Pruning the build context is sound: below an excluded directory that no exception opens
everything is excluded, and the walk that leaves it out takes the files that testing every path
takes.
-/
theorem pruning_sound (text : List Char)
    : (∀ d, isExcluded (parseIgnore text) d = true → mayReincludeUnder (parseIgnore text) d = false →
        ∀ p, Below d p → isExcluded (parseIgnore text) p = true)
      ∧ ∀ rel entries, copyDirAll (some (parseIgnore text)) rel entries
        = tested (parseIgnore text) (filesBelow rel entries) :=
  ⟨fun _ out closed _ below => isExcluded_below out closed below, copyDirAll_eq (parseIgnore text)⟩

/-- Two excluded directories, of which an exception opens one. -/
def vendorIgnore : List Char := "build\nvendor\n!vendor/keep\n".toList

def entryName (text : String)
    (plain : '/' ∉ text.toList ∧ text.toList ≠ [] ∧ text.toList ≠ ['.'] ∧ text.toList ≠ ['.', '.'])
    : EntryName :=
  ⟨text.toList, plain⟩

def vendorTree : List Entry := [
  .dir (entryName "build" (by decide))
    [.leaf (entryName "a" (by decide)), .dir (entryName "keep" (by decide)) []],
  .dir (entryName "vendor" (by decide))
    [.leaf (entryName "a" (by decide)), .leaf (entryName "keep" (by decide))],
  .leaf (entryName "main" (by decide))
]

theorem pruning_sound_vendor
    : (∀ p, Below "build".toList p → isExcluded (parseIgnore vendorIgnore) p = true)
      ∧ isExcluded (parseIgnore vendorIgnore) "vendor".toList = true
      ∧ mayReincludeUnder (parseIgnore vendorIgnore) "vendor".toList = true
      ∧ copyDirAll (some (parseIgnore vendorIgnore)) [] vendorTree
        = tested (parseIgnore vendorIgnore) (filesBelow [] vendorTree)
      ∧ (copyDirAll (some (parseIgnore vendorIgnore)) [] vendorTree).map (·.map EntryName.text)
        = [["vendor".toList, "keep".toList], ["main".toList]] := by
  have sound := pruning_sound vendorIgnore
  refine ⟨sound.1 "build".toList (by decide +kernel) (by decide +kernel), by decide +kernel,
    by decide +kernel, sound.2 [] vendorTree, ?_⟩
  rw [sound.2]
  decide +kernel

end Delonix.Build
