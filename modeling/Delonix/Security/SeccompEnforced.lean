import Delonix.Security.Seccomp
import Mathlib.Data.Fintype.EquivFin
import Mathlib.Data.Int.Order.Basic

/-! Which seccomp profiles are enforced as they are written, of those that are loaded.
-/

namespace Delonix.Security.Seccomp

open Delonix.Library.Checks
open Delonix.Library.Json

variable (host : Host)

-----------------------------------------------------------------------------------------
-- What a document asks for
-----------------------------------------------------------------------------------------

/-- An entry names a system call of this machine. -/
def Names (entry : Value) (number : Int) : Prop :=
  ∃ items, (entry.get? "names").bind Value.asArray = some items
    ∧ ∃ name, Value.text name ∈ items ∧ host.syscallNumber name = some number

/-- The action that a value gives under one key, with the error number it gives under another.
-/
def Gives (value : Value) (actionKey errnoKey : String) (act : Act) : Prop :=
  ∃ action, (value.get? actionKey).bind Value.asStr = some action
    ∧ parseAction action ((value.get? errnoKey).bind Value.asU64) = .ok act

/-- A value that sets no condition. -/
def Blank (value : Value) : Prop := value = .null ∨ value = .array [] ∨ value = .object []

/-- The fields that narrow an entry. -/
def narrowing : List String := ["args", "includes", "excludes", "minKernel"]

/-- A field that is neither absent nor an unsigned number. -/
def BadErrno (value : Value) (key : String) : Prop :=
  ∃ held, value.get? key = some held ∧ held ≠ .null ∧ held.asU64 = none

/-- A document with something the engine does not implement. -/
inductive Unsupported (doc : Value) : Prop where
  | narrowed {entry held : Value} {key : String} (member : entry ∈ entries doc)
    (narrows : key ∈ narrowing) (field : entry.get? key = some held) (condition : ¬ Blank held)
  | notAList {held : Value} (field : doc.get? "syscalls" = some held)
    (other : held.asArray = none)
  | badErrno {entry : Value} (member : entry ∈ entries doc) (bad : BadErrno entry "errnoRet")
  | badDefaultErrno (bad : BadErrno doc "defaultErrnoRet")
  | twoActions {entry entry' : Value} {number : Int} {act act' : Act}
    (member : entry ∈ entries doc) (member' : entry' ∈ entries doc)
    (names : Names host entry number) (names' : Names host entry' number)
    (gives : Gives entry "action" "errnoRet" act) (gives' : Gives entry' "action" "errnoRet" act')
    (different : act ≠ act')

/-- A filter answers as a document asks, and the document asks for nothing else. -/
structure Enforced (doc : Value) (filter : Filter) : Prop where
  rules : ∀ entry ∈ entries doc, ∀ number act, Names host entry number →
    Gives entry "action" "errnoRet" act → filter.answer number = act
  others : ∀ number act, (∀ entry ∈ entries doc, ¬ Names host entry number) →
    Gives doc "defaultAction" "defaultErrnoRet" act → filter.answer number = act
  supported : ¬ Unsupported host doc

/-- A document the engine reads whole. -/
structure Plain (doc : Value) : Prop where
  list : ∀ held, doc.get? "syscalls" = some held → ∃ items, held = .array items
  unconditioned : ∀ entry ∈ entries doc, ∀ key ∈ narrowing, ∀ held,
    entry.get? key = some held → Blank held
  errnos : ∀ entry ∈ entries doc, ¬ BadErrno entry "errnoRet"
    ∧ ∀ number, Names host entry number →
      (entry.get? "action").bind Value.asStr = some "SCMP_ACT_ERRNO" →
      ∀ errno, (entry.get? "errnoRet").bind Value.asU64 = some errno → errno < 2 ^ 32
  defaultErrno : ¬ BadErrno doc "defaultErrnoRet"
    ∧ ((doc.get? "defaultAction").bind Value.asStr = some "SCMP_ACT_ERRNO" →
      ∀ errno, (doc.get? "defaultErrnoRet").bind Value.asU64 = some errno → errno = eperm)
  restated : ∀ entry ∈ entries doc, ∀ entry' ∈ entries doc, ∀ number, Names host entry number →
    Names host entry' number → ∀ act, Gives doc "defaultAction" "defaultErrnoRet" act →
    Gives entry "action" "errnoRet" act → Gives entry' "action" "errnoRet" act

-----------------------------------------------------------------------------------------
-- What is read
-----------------------------------------------------------------------------------------

variable {host}

theorem required_eq_ok {α : Type} {message : String} {value : Option α} {result : α}
    : required message value = .ok result ↔ value = some result := by
  cases value with
  | none => simp [required]
  | some value => simp [required]

theorem asStr_eq_some {value : Value} {text : String}
    : value.asStr = some text ↔ value = .text text := by
  cases value <;> simp [Value.asStr]

theorem asArray_eq_some {value : Value} {items : List Value}
    : value.asArray = some items ↔ value = .array items := by
  cases value <;> simp [Value.asArray]

/-- The action the engine reads from an entry. -/
def Reads (entry : Value) (act : Act) : Prop :=
  ∃ action, (entry.get? "action").bind Value.asStr = some action
    ∧ parseAction action (((entry.get? "errnoRet").bind Value.asU64).map (· % 2 ^ 32)) = .ok act

theorem Reads.unique {entry : Value} {act act' : Act} (reads : Reads entry act)
    (reads' : Reads entry act')
    : act = act' := by
  obtain ⟨action, is, parsed⟩ := reads
  obtain ⟨action', is', parsed'⟩ := reads'
  cases is.symm.trans is'
  exact Except.ok.inj (parsed.symm.trans parsed')

theorem parseNames_spec {act : Act} {items : List Value} {rules : List (Int × Act)}
    {unknown : List String} (parsed : parseNames host act items = .ok (rules, unknown))
    (rule : Int × Act)
    : rule ∈ rules ↔ rule.2 = act
      ∧ ∃ name, Value.text name ∈ items ∧ host.syscallNumber name = some rule.1 := by
  induction items generalizing rules unknown with
  | nil =>
      cases parsed
      simp
  | cons item rest ih =>
      simp only [parseNames, bind_eq_ok, required_eq_ok, asStr_eq_some, Prod.exists] at parsed
      obtain ⟨name, rfl, rules', unknown', tail, last⟩ := parsed
      have rest_iff := ih tail
      split at last
      case h_1 number found =>
        cases last
        simp only [List.mem_cons, rest_iff, Value.text.injEq]
        constructor
        · rintro (rfl | ⟨same, name', member, known⟩)
          · exact ⟨rfl, name, .inl rfl, found⟩
          · exact ⟨same, name', .inr member, known⟩
        · rintro ⟨same, name', rfl | member, known⟩
          · rw [found] at known
            exact .inl (Prod.ext (Option.some.inj known).symm same)
          · exact .inr ⟨same, name', member, known⟩
      case h_2 absent =>
        cases last
        simp only [List.mem_cons, rest_iff, Value.text.injEq]
        constructor
        · rintro ⟨same, name', member, known⟩
          exact ⟨same, name', .inr member, known⟩
        · rintro ⟨same, name', rfl | member, known⟩
          · rw [absent] at known
            cases known
          · exact ⟨same, name', member, known⟩

theorem parseEntry_spec {entry : Value} {rules : List (Int × Act)} {unknown : List String}
    (parsed : parseEntry host entry = .ok (rules, unknown))
    : ∃ act, Reads entry act
      ∧ ∀ rule, rule ∈ rules ↔ rule.2 = act ∧ Names host entry rule.1 := by
  simp only [parseEntry, bind_eq_ok, required_eq_ok] at parsed
  obtain ⟨action, actionIs, act, read, rest⟩ := parsed
  split at rest
  · cases rest
  · simp only [bind_eq_ok, required_eq_ok] at rest
    obtain ⟨items, itemsAre, names⟩ := rest
    refine ⟨act, ⟨action, actionIs, read⟩, fun rule => ?_⟩
    rw [parseNames_spec names, Names]
    simp [itemsAre]

theorem parseEntries_spec {items : List Value} {rules : List (Int × Act)}
    {unknown : List String} (parsed : parseEntries host items = .ok (rules, unknown))
    : (∀ entry ∈ items, ∃ act, Reads entry act)
      ∧ ∀ rule, rule ∈ rules ↔ ∃ entry ∈ items, Reads entry rule.2 ∧ Names host entry rule.1 := by
  induction items generalizing rules unknown with
  | nil =>
      cases parsed
      simp
  | cons entry rest ih =>
      simp only [parseEntries, bind_eq_ok, Prod.exists] at parsed
      obtain ⟨first, unknown', here, others, unknown'', tail, last⟩ := parsed
      cases last
      obtain ⟨act, reads, rules_iff⟩ := parseEntry_spec here
      obtain ⟨allRead, others_iff⟩ := ih tail
      constructor
      · intro entry' member
        rcases List.mem_cons.mp member with rfl | later
        · exact ⟨act, reads⟩
        · exact allRead entry' later
      · intro rule
        rw [List.mem_append, rules_iff, others_iff]
        constructor
        · rintro (⟨rfl, names⟩ | ⟨entry', later, found⟩)
          · exact ⟨entry, List.mem_cons_self, reads, names⟩
          · exact ⟨entry', List.mem_cons_of_mem _ later, found⟩
        · rintro ⟨entry', member, reads', names⟩
          rcases List.mem_cons.mp member with rfl | later
          · exact .inl ⟨reads'.unique reads, names⟩
          · exact .inr ⟨entry', later, reads', names⟩

-----------------------------------------------------------------------------------------
-- What is loaded
-----------------------------------------------------------------------------------------

/-- What a filter does with the rules it was compiled from. -/
structure Compiled (fallback : Act) (rules : List (Int × Act)) (filter : Filter) : Prop where
  unmatched : filter.defaultAction = fallback
  numbers : ∀ number, number ∈ filter.numbers ↔ ∃ act, (number, act) ∈ rules ∧ act ≠ fallback
  matched : ∀ rule ∈ rules, rule.2 ≠ fallback → filter.matchAction = rule.2

theorem compile_spec {p : Profile} {filter : Filter} (compiled : compile host p = .ok filter)
    : Compiled p.defaultAction p.rules filter := by
  simp only [compile] at compiled
  split at compiled
  case isFalse => cases compiled
  case isTrue =>
    split at compiled
    · cases compiled
    case isFalse few =>
      split at compiled
      · cases compiled
      · cases compiled
        constructor
        case unmatched => rfl
        case numbers =>
          intro number
          simp [List.mem_map, List.mem_filter]
        case matched =>
          intro rule member other
          have listed : rule.2 ∈ ((p.rules.filter
              (fun rule => rule.2 ≠ p.defaultAction)).map Prod.snd).dedup := by
            rw [List.mem_dedup]
            exact List.mem_map_of_mem (List.mem_filter.mpr ⟨member, by simpa using other⟩)
          obtain ⟨first, is⟩ : ∃ first, ((p.rules.filter
              (fun rule => rule.2 ≠ p.defaultAction)).map Prod.snd).dedup = [first] := by
            apply List.length_eq_one_iff.mp
            have := List.length_pos_of_mem listed
            omega
          rw [is] at listed ⊢
          rw [List.mem_singleton.mp listed]
          rfl

section
variable {fallback : Act} {rules : List (Int × Act)} {filter : Filter}
  (compiled : Compiled fallback rules filter)

include compiled

theorem Compiled.answer_rule {number : Int} {act : Act} (member : (number, act) ∈ rules)
    (other : act ≠ fallback)
    : filter.answer number = act := by
  have mapped := (compiled.numbers number).mpr ⟨act, member, other⟩
  rw [Filter.answer, if_pos mapped, compiled.matched _ member other]

theorem Compiled.answer_default {number : Int}
    (all : ∀ act, (number, act) ∈ rules → act = fallback)
    : filter.answer number = fallback := by
  have absent : number ∉ filter.numbers := by
    intro mapped
    obtain ⟨act, member, other⟩ := (compiled.numbers number).mp mapped
    exact other (all act member)
  rw [Filter.answer, if_neg absent, compiled.unmatched]

/-- Every answer is one that was read. -/
theorem Compiled.answer_mem (number : Int)
    : filter.answer number = fallback ∨ (number, filter.answer number) ∈ rules := by
  by_cases all : ∀ act, (number, act) ∈ rules → act = fallback
  · exact .inl (compiled.answer_default all)
  · push Not at all
    obtain ⟨act, member, other⟩ := all
    rw [compiled.answer_rule member other]
    exact .inr member

end

/-- What is read of a document that is loaded. -/
structure Loaded (host : Host) (doc : Value) (fallback : Act) (rules : List (Int × Act))
    (filter : Filter) : Prop where
  compiled : Compiled fallback rules filter
  reads : ∃ action, (doc.get? "defaultAction").bind Value.asStr = some action
    ∧ parseAction action none = .ok fallback
  allRead : ∀ entry ∈ entries doc, ∃ act, Reads entry act
  mem_rules : ∀ rule, rule ∈ rules
    ↔ ∃ entry ∈ entries doc, Reads entry rule.2 ∧ Names host entry rule.1

theorem load_spec {doc : Value} {filter : Filter} (accepted : load host doc = .ok filter)
    : ∃ fallback rules, Loaded host doc fallback rules filter := by
  simp only [load, parse, bind_eq_ok, required_eq_ok, Prod.exists] at accepted
  obtain ⟨p, _, ⟨action, actionIs, fallback, read, rules, unknown, parsed, made⟩, built⟩ :=
    accepted
  cases made
  obtain ⟨allRead, mem_rules⟩ := parseEntries_spec parsed
  exact ⟨fallback, rules, compile_spec built, ⟨action, actionIs, read⟩, allRead, mem_rules⟩

-----------------------------------------------------------------------------------------
-- Actions
-----------------------------------------------------------------------------------------

/-- Only one action carries an error number. -/
theorem parseAction_cases (action : String)
    : (∃ result, ∀ errnoRet, parseAction action errnoRet = result
        ∧ ∀ code, result ≠ .ok (.errno code))
      ∨ action = "SCMP_ACT_ERRNO"
        ∧ ∀ errnoRet, parseAction action errnoRet = .ok (.errno (errnoRet.getD eperm)) := by
  by_cases errno : action = "SCMP_ACT_ERRNO"
  · subst errno
    exact .inr ⟨rfl, fun _ => rfl⟩
  · refine .inl ⟨parseAction action none, fun errnoRet => ?_⟩
    unfold parseAction
    simp only [errno, if_false]
    refine ⟨trivial, fun code => ?_⟩
    split_ifs <;> simp

section
variable {value entry : Value} {act act' : Act}

theorem Gives.unique {actionKey errnoKey : String} (gives : Gives value actionKey errnoKey act)
    (gives' : Gives value actionKey errnoKey act')
    : act = act' := by
  obtain ⟨action, is, parsed⟩ := gives
  obtain ⟨action', is', parsed'⟩ := gives'
  cases is.symm.trans is'
  exact Except.ok.inj (parsed.symm.trans parsed')

/-- Without an error number that is cut, an entry is read as it is written. -/
theorem reads_iff_gives
    (small : (entry.get? "action").bind Value.asStr = some "SCMP_ACT_ERRNO" →
      ∀ errno, (entry.get? "errnoRet").bind Value.asU64 = some errno → errno < 2 ^ 32)
    : Reads entry act ↔ Gives entry "action" "errnoRet" act := by
  have same (action : String) (is : (entry.get? "action").bind Value.asStr = some action)
      : parseAction action (((entry.get? "errnoRet").bind Value.asU64).map (· % 2 ^ 32))
        = parseAction action ((entry.get? "errnoRet").bind Value.asU64) := by
    rcases parseAction_cases action with ⟨result, fixed⟩ | ⟨rfl, -⟩
    · rw [(fixed _).1, (fixed _).1]
    · cases errno : (entry.get? "errnoRet").bind Value.asU64 with
      | none => rfl
      | some code => rw [Option.map_some, Nat.mod_eq_of_lt (small is code errno)]
  constructor
  · rintro ⟨action, is, parsed⟩
    exact ⟨action, is, same action is ▸ parsed⟩
  · rintro ⟨action, is, parsed⟩
    exact ⟨action, is, (same action is).symm ▸ parsed⟩

theorem Reads.exists_gives (reads : Reads entry act)
    : ∃ act', Gives entry "action" "errnoRet" act' := by
  obtain ⟨action, is, parsed⟩ := reads
  rcases parseAction_cases action with ⟨result, fixed⟩ | ⟨rfl, parses⟩
  · rw [(fixed _).1, ← (fixed ((entry.get? "errnoRet").bind Value.asU64)).1] at parsed
    exact ⟨act, action, is, parsed⟩
  · exact ⟨_, _, is, parses _⟩

/-- An error number that was read fits 32 bits. -/
theorem Reads.code_lt {code : Nat} (reads : Reads entry (.errno code)) : code < 2 ^ 32 := by
  obtain ⟨action, -, parsed⟩ := reads
  rcases parseAction_cases action with ⟨result, fixed⟩ | ⟨rfl, parses⟩
  · exact absurd ((fixed _).1.symm.trans parsed) ((fixed none).2 code)
  · rw [parses] at parsed
    cases parsed
    cases (entry.get? "errnoRet").bind Value.asU64 with
    | none => decide
    | some errno => exact Nat.mod_lt _ (by decide)

end

section
variable {doc : Value} {fallback : Act} {rules : List (Int × Act)} {filter : Filter}
  (loaded : Loaded host doc fallback rules filter)

include loaded

/-- The default action is read as it is written where its error number is the one assumed. -/
theorem Loaded.gives_fallback
    (assumed : (doc.get? "defaultAction").bind Value.asStr = some "SCMP_ACT_ERRNO" →
      ∀ errno, (doc.get? "defaultErrnoRet").bind Value.asU64 = some errno → errno = eperm)
    : Gives doc "defaultAction" "defaultErrnoRet" fallback := by
  obtain ⟨action, is, parsed⟩ := loaded.reads
  refine ⟨action, is, ?_⟩
  rcases parseAction_cases action with ⟨result, fixed⟩ | ⟨rfl, parses⟩
  · rw [(fixed _).1, ← (fixed none).1, parsed]
  · rw [parses] at parsed ⊢
    rw [← parsed]
    cases errno : (doc.get? "defaultErrnoRet").bind Value.asU64 with
    | none => rfl
    | some code => rw [Option.getD_some, Option.getD_none, assumed is code errno]

theorem Loaded.answer_code_lt {number : Int} {code : Nat}
    (answers : filter.answer number = .errno code)
    : code < 2 ^ 32 := by
  rcases loaded.compiled.answer_mem number with fallen | member
  · obtain ⟨action, -, parsed⟩ := loaded.reads
    rw [← fallen, answers] at parsed
    rcases parseAction_cases action with ⟨result, fixed⟩ | ⟨rfl, parses⟩
    · exact absurd ((fixed _).1.symm.trans parsed) ((fixed none).2 code)
    · rw [parses] at parsed
      cases parsed
      decide
  · obtain ⟨entry, -, reads, -⟩ := (loaded.mem_rules _).mp member
    rw [answers] at reads
    exact reads.code_lt

/-- There are more numbers than rules. -/
theorem Loaded.exists_unnamed
    : ∃ number, (∀ entry ∈ entries doc, ¬ Names host entry number)
      ∧ filter.answer number = fallback := by
  obtain ⟨number, absent⟩ := Infinite.exists_notMem_finset (rules.map Prod.fst).toFinset
  have unruled : ∀ act, (number, act) ∉ rules := by
    intro act member
    exact absent (List.mem_toFinset.mpr (List.mem_map_of_mem member))
  refine ⟨number, ?_, loaded.compiled.answer_default fun act member =>
    absurd member (unruled act)⟩
  intro entry member names
  obtain ⟨act, reads⟩ := loaded.allRead entry member
  exact unruled act ((loaded.mem_rules (number, act)).mpr ⟨entry, member, reads, names⟩)

theorem Loaded.plain (enforced : Enforced host doc filter) : Plain host doc := by
  constructor
  case list =>
    intro held field
    cases array : held.asArray with
    | none => exact absurd (.notAList field array) enforced.supported
    | some items => exact ⟨items, asArray_eq_some.mp array⟩
  case unconditioned =>
    intro entry member key narrows held field
    by_contra condition
    exact enforced.supported (.narrowed member narrows field condition)
  case errnos =>
    intro entry member
    refine ⟨fun bad => enforced.supported (.badErrno member bad), ?_⟩
    intro number names is errno given
    have gives : Gives entry "action" "errnoRet" (.errno errno) := by
      refine ⟨_, is, ?_⟩
      rw [given]
      rfl
    exact loaded.answer_code_lt (enforced.rules entry member number _ names gives)
  case defaultErrno =>
    refine ⟨fun bad => enforced.supported (.badDefaultErrno bad), ?_⟩
    intro is errno given
    obtain ⟨number, unnamed, answers⟩ := loaded.exists_unnamed
    have gives : Gives doc "defaultAction" "defaultErrnoRet" (.errno errno) := by
      refine ⟨_, is, ?_⟩
      rw [given]
      rfl
    obtain ⟨action, is', parsed⟩ := loaded.reads
    cases is.symm.trans is'
    rw [← answers, enforced.others number _ unnamed gives] at parsed
    cases parsed
    rfl
  case restated =>
    intro entry member entry' member' number names names' act _ gives
    obtain ⟨read, reads⟩ := loaded.allRead entry' member'
    obtain ⟨act', gives'⟩ := reads.exists_gives
    by_cases same : act = act'
    · exact same ▸ gives'
    · exact absurd (.twoActions member member' names names' gives gives' same)
        enforced.supported

theorem Loaded.enforced (plain : Plain host doc) : Enforced host doc filter := by
  have fallen := loaded.gives_fallback plain.defaultErrno.2
  have ruled (entry : Value) (member : entry ∈ entries doc) (number : Int) (act : Act)
      (names : Names host entry number) (gives : Gives entry "action" "errnoRet" act)
      : (number, act) ∈ rules := by
    have reads := (reads_iff_gives ((plain.errnos entry member).2 number names)).mpr gives
    exact (loaded.mem_rules _).mpr ⟨entry, member, reads, names⟩
  -- Next to a rule that restates the default there is no other one.
  have restated (entry : Value) (member : entry ∈ entries doc) (number : Int)
      (names : Names host entry number) (gives : Gives entry "action" "errnoRet" fallback)
      : ∀ act, (number, act) ∈ rules → act = fallback := by
    intro act rule
    obtain ⟨entry', member', reads', names'⟩ := (loaded.mem_rules _).mp rule
    have gives' := (reads_iff_gives ((plain.errnos entry' member').2 number names')).mp reads'
    exact gives'.unique
      (plain.restated entry member entry' member' number names names' fallback fallen gives)
  have answers (entry : Value) (member : entry ∈ entries doc) (number : Int) (act : Act)
      (names : Names host entry number) (gives : Gives entry "action" "errnoRet" act)
      : filter.answer number = act := by
    by_cases default : act = fallback
    · subst default
      exact loaded.compiled.answer_default (restated entry member number names gives)
    · exact loaded.compiled.answer_rule (ruled entry member number act names gives) default
  constructor
  case rules => exact answers
  case others =>
    intro number act unnamed gives
    rw [gives.unique fallen]
    apply loaded.compiled.answer_default
    intro act' rule
    obtain ⟨entry, member, -, names⟩ := (loaded.mem_rules _).mp rule
    exact absurd names (unnamed entry member)
  case supported =>
    intro unsupported
    cases unsupported with
    | narrowed member narrows field condition =>
        exact condition (plain.unconditioned _ member _ narrows _ field)
    | notAList field other =>
        obtain ⟨items, rfl⟩ := plain.list _ field
        cases other
    | badErrno member bad => exact (plain.errnos _ member).1 bad
    | badDefaultErrno bad => exact plain.defaultErrno.1 bad
    | twoActions member member' names names' gives gives' different =>
        have first := answers _ member _ _ names gives
        have second := answers _ member' _ _ names' gives'
        exact different (first.symm.trans second)

end

-----------------------------------------------------------------------------------------
-- Enforced as written
-----------------------------------------------------------------------------------------

/-- A document that is loaded is enforced as it is written, and leaves nothing out, exactly when
it is plain: what the engine passes over (conditions other than a list of arguments, entries
that are no list, error numbers it does not read) is not refused.
-/
theorem enforced_iff_plain {doc : Value} {filter : Filter}
    (accepted : load host doc = .ok filter)
    : Enforced host doc filter ↔ Plain host doc := by
  obtain ⟨fallback, rules, loaded⟩ := load_spec accepted
  exact ⟨loaded.plain, loaded.enforced⟩

/-- A machine with one name, whose library refuses two equal actions. -/
def oneCall : Host where
  syscallNumber name := if name = "sethostname" then some 170 else none
  archSupported := true
  newFilter filter :=
    if filter.defaultAction = filter.matchAction then
      some "The match and mismatch actions are identical."
    else none

def blockHostname : Value :=
  .object
    [ ("defaultAction", .text "SCMP_ACT_ALLOW"),
      ("syscalls", .array
        [ .object
            [ ("action", .text "SCMP_ACT_ERRNO"),
              ("errnoRet", .number 13),
              ("names", .array [.text "sethostname"]) ] ]) ]

theorem blockHostname_enforced
    : load oneCall blockHostname = .ok ⟨[170], .allow, .errno 13⟩
      ∧ Enforced oneCall blockHostname ⟨[170], .allow, .errno 13⟩ := by
  have accepted : load oneCall blockHostname = .ok ⟨[170], .allow, .errno 13⟩ := rfl
  have single : ∀ entry ∈ entries blockHostname, entry = .object
      [ ("action", .text "SCMP_ACT_ERRNO"), ("errnoRet", .number 13),
        ("names", .array [.text "sethostname"]) ] := by
    intro entry member
    exact List.mem_singleton.mp member
  refine ⟨accepted, (enforced_iff_plain accepted).mpr ?_⟩
  constructor
  case list =>
    intro held field
    exact ⟨_, (Option.some.inj field).symm⟩
  case unconditioned =>
    intro entry member key narrows held field
    rw [single entry member] at field
    simp only [narrowing, List.mem_cons, List.not_mem_nil, or_false] at narrows
    rcases narrows with rfl | rfl | rfl | rfl <;> cases field
  case errnos =>
    intro entry member
    rw [single entry member]
    constructor
    · rintro ⟨held, field, -, none⟩
      cases field
      cases none
    · intro number _ _ errno given
      cases given
      decide
  case defaultErrno =>
    constructor
    · rintro ⟨held, field, -⟩
      cases field
    · intro is
      have other : some "SCMP_ACT_ALLOW" ≠ some "SCMP_ACT_ERRNO" := by decide
      exact absurd is other
  case restated =>
    intro entry member entry' member' number _ _ act _ gives
    rw [single entry member] at gives
    rw [single entry' member']
    exact gives

/-- A default with its own error number, as profiles in use have it, answers with another. -/
theorem default_errno_dropped
    : ¬ ∀ (host : Host) (doc : Value) (filter : Filter), load host doc = .ok filter →
        Enforced host doc filter := by
  intro always
  let doc : Value := .object
    [("defaultAction", .text "SCMP_ACT_ERRNO"), ("defaultErrnoRet", .number 38)]
  have accepted : load oneCall doc = .ok ⟨[], .errno 1, .allow⟩ := rfl
  have answers := (always oneCall doc _ accepted).others 0 (.errno 38)
    (fun entry member => by cases member) ⟨_, rfl, rfl⟩
  cases answers

end Delonix.Security.Seccomp
