import Mathlib.Data.Finset.Basic
import Delonix.Library.DebugText
import Delonix.Library.FirstFound
import Delonix.Library.Pieces
import Delonix.Networking.Fingerprint

/-! How what a gateway provider holds under a mark differs from what was declared. A declared object
is compared with the first observed one of its name, and the appliance does not keep names unique.
-/

namespace Delonix.Networking

open Delonix.Library.FirstFound
open Delonix.Library.Sorting
open Delonix.Library.DebugText
open Delonix.Library.Text

-----------------------------------------------------------------------------------------
-- The check
-----------------------------------------------------------------------------------------

/-- The content of an alias as a set. -/
def contentSet (content : List String) : Finset String :=
  (content.map fun entry => String.ofList (trim entry.toList)).toFinset

def kindLine (want : GatewayAlias) : String := "alias '" ++ want.name ++ "' kind differs"

def contentLine (want have_ : GatewayAlias) : String :=
  "alias '" ++ want.name ++ ("' content is [" ++ (", ".intercalate have_.content
    ++ ("], declared [" ++ ", ".intercalate want.content ++ "]")))

/-- What is said of a declared alias and the observed one it is compared with. -/
def aliasLines (want have_ : GatewayAlias) : List String :=
  (if have_.kind ≠ want.kind then [kindLine want] else [])
    ++ if contentSet have_.content ≠ contentSet want.content then [contentLine want have_] else []

def aliasMissing (want : GatewayAlias) : List String := ["alias '" ++ want.name ++ "' is missing"]

def aliasStray (have_ : GatewayAlias) : String :=
  "alias '" ++ have_.name ++ "' carries this engine's mark and is not declared"

/-- The protocol of a rule as it is compared. -/
def proto (protocol : Option String) : String := toAsciiUppercase (protocol.getD "any")

/-- The fields of a rule that are compared: the name, the observed and the declared text. -/
def ruleFields (want have_ : GatewayRule) : List (String × String × String) :=
  [ ("source", have_.source, want.source),
    ("destination", have_.destination, want.destination),
    ("protocol", proto have_.protocol, proto want.protocol),
    ("action", have_.action.asStr, want.action.asStr),
    ("destination_port", have_.destinationPort.getD "", want.destinationPort.getD ""),
    ("log", toString have_.log, toString want.log),
    ("stateful", toString have_.stateful, toString want.stateful) ]
    ++ match want.sequence with
      | some seq => [("sequence", (have_.sequence.map toString).getD "", toString seq)]
      | none => []

/-- The line about one field. -/
def fieldLine (description : String) : String × String × String → String
  | (name, have_, want) =>
      "rule '" ++ description ++ "' "
        ++ (name ++ " is '" ++ (have_ ++ ("', declared '" ++ want ++ "'")))

def fieldLines (description : String) (fields : List (String × String × String)) : List String :=
  (fields.filter fun field => field.2.1 ≠ field.2.2).map (fieldLine description)

def disabledLine (description : String) : String :=
  "rule '" ++ description ++ "' is disabled on the appliance"

/-- What is said of a declared rule and the observed one it is compared with. -/
def ruleLines (disabledRules : List String) (want have_ : GatewayRule) : List String :=
  fieldLines want.description (ruleFields want have_)
    ++ if disabledRules.contains want.description then [disabledLine want.description] else []

def ruleMissing (want : GatewayRule) : List String :=
  ["rule '" ++ want.description ++ "' is missing"]

def ruleStray (have_ : GatewayRule) : String :=
  "rule '" ++ have_.description ++ "' carries this engine's mark and is not declared"

def aliasDrift (aliases observed : List GatewayAlias) : List String :=
  reports GatewayAlias.name GatewayAlias.name aliasMissing aliasLines observed aliases
    ++ strays GatewayAlias.name GatewayAlias.name aliases aliasStray observed

def ruleDrift (rules : List GatewayRule) (disabledRules : List String)
    (observed : List GatewayRule) : List String :=
  reports GatewayRule.description GatewayRule.description ruleMissing (ruleLines disabledRules)
      observed rules
    ++ strays GatewayRule.description GatewayRule.description rules ruleStray observed

/-- How what a provider holds under a mark differs from what the record declared, one line for each
difference, sorted.
-/
def gatewayDrift (aliases : List GatewayAlias) (rules : List GatewayRule)
    (observed : GatewayObserved) : List String :=
  sortByKey id (aliasDrift aliases observed.aliases
    ++ ruleDrift rules observed.disabledRules observed.rules)

-----------------------------------------------------------------------------------------
-- What it is for
-----------------------------------------------------------------------------------------

/-- An observed alias is the declared one, in what is compared. -/
structure ComparedAlias (want have_ : GatewayAlias) : Prop where
  kind : have_.kind = want.kind
  content : contentSet have_.content = contentSet want.content

/-- An observed alias is the declared one. -/
structure SameAlias (want have_ : GatewayAlias) : Prop extends ComparedAlias want have_ where
  description : have_.description = want.description

/-- An observed rule is the declared one, in what is compared. A sequence is compared where one was
declared.
-/
structure ComparedRule (disabledRules : List String) (want have_ : GatewayRule) : Prop where
  source : have_.source = want.source
  destination : have_.destination = want.destination
  protocol : proto have_.protocol = proto want.protocol
  action : have_.action = want.action
  portText : have_.destinationPort.getD "" = want.destinationPort.getD ""
  log : have_.log = want.log
  stateful : have_.stateful = want.stateful
  sequence : ∀ seq, want.sequence = some seq → have_.sequence = some seq
  enabled : want.description ∉ disabledRules

/-- An observed rule is the declared one. -/
structure SameRule (disabledRules : List String) (want have_ : GatewayRule) : Prop
    extends ComparedRule disabledRules want have_ where
  destinationPort : have_.destinationPort = want.destinationPort

/-- Every declared object is observed as it was declared, and every observed one is declared so. -/
def Paired {α : Type} (name : α → String) (same : α → α → Prop) (declared observed : List α)
    : Prop :=
  (∀ want ∈ declared, ∃ have_ ∈ observed, name have_ = name want ∧ same want have_)
  ∧ ∀ have_ ∈ observed, ∃ want ∈ declared, name want = name have_ ∧ same want have_

def InSync (aliases : List GatewayAlias) (rules : List GatewayRule) (observed : GatewayObserved)
    : Prop :=
  Paired GatewayAlias.name SameAlias aliases observed.aliases
  ∧ Paired GatewayRule.description (SameRule observed.disabledRules) rules observed.rules

def InSyncAsCompared (aliases : List GatewayAlias) (rules : List GatewayRule)
    (observed : GatewayObserved) : Prop :=
  Paired GatewayAlias.name ComparedAlias aliases observed.aliases
  ∧ Paired GatewayRule.description (ComparedRule observed.disabledRules) rules observed.rules

/-- The description of an alias, and whether a rule without a port names the empty one, are as
declared.
-/
def UncomparedAgree (aliases : List GatewayAlias) (rules : List GatewayRule)
    (observed : GatewayObserved) : Prop :=
  (∀ want ∈ aliases, ∀ have_ ∈ observed.aliases, have_.name = want.name →
    have_.description = want.description)
  ∧ ∀ want ∈ rules, ∀ have_ ∈ observed.rules, have_.description = want.description →
    have_.destinationPort = want.destinationPort

/-- The same objects, listed in another order. -/
structure Reordered (observed observed' : GatewayObserved) : Prop where
  aliases : observed.aliases.Perm observed'.aliases
  rules : observed.rules.Perm observed'.rules
  disabledRules : observed.disabledRules.Perm observed'.disabledRules

/-- Observed aliases of one declared name agree in what is said of them. -/
def AliasesAlike (aliases observed : List GatewayAlias) : Prop :=
  ∀ want ∈ aliases, ∀ a ∈ observed, ∀ b ∈ observed, a.name = want.name → b.name = want.name →
    a.kind = b.kind
    ∧ (contentSet a.content = contentSet want.content
      ↔ contentSet b.content = contentSet want.content)
    ∧ (contentSet a.content ≠ contentSet want.content →
      ", ".intercalate a.content = ", ".intercalate b.content)

/-- Two observed rules have the same values in what is compared with the declared one. -/
structure RuleAlike (want a b : GatewayRule) : Prop where
  source : a.source = b.source
  destination : a.destination = b.destination
  protocol : proto a.protocol = proto b.protocol
  action : a.action = b.action
  portText : a.destinationPort.getD "" = b.destinationPort.getD ""
  log : a.log = b.log
  stateful : a.stateful = b.stateful
  sequence : want.sequence ≠ none → a.sequence = b.sequence

def RulesAlike (rules observed : List GatewayRule) : Prop :=
  ∀ want ∈ rules, ∀ a ∈ observed, ∀ b ∈ observed,
    a.description = want.description → b.description = want.description → RuleAlike want a b

-----------------------------------------------------------------------------------------
-- Lines about one alias
-----------------------------------------------------------------------------------------

theorem aliasLines_eq_nil_iff {want have_ : GatewayAlias}
    : aliasLines want have_ = [] ↔ ComparedAlias want have_ := by
  rw [aliasLines, List.append_eq_nil_iff]
  constructor
  · rintro ⟨kind, content⟩
    exact ⟨by simpa using kind, by simpa using content⟩
  · rintro ⟨kind, content⟩
    exact ⟨by simp [kind], by simp [content]⟩

theorem kindLine_ne (want have_ : GatewayAlias) : kindLine want ≠ contentLine want have_ := by
  intro same
  have chars := congrArg String.toList same
  simp [kindLine, contentLine] at chars

theorem contentLine_eq_iff {want a b : GatewayAlias}
    : contentLine want a = contentLine want b
      ↔ ", ".intercalate a.content = ", ".intercalate b.content := by
  simp [contentLine, ← String.toList_inj]

theorem mem_aliasLines {want have_ : GatewayAlias} {line : String}
    : line ∈ aliasLines want have_
      ↔ (have_.kind ≠ want.kind ∧ line = kindLine want)
        ∨ (contentSet have_.content ≠ contentSet want.content ∧ line = contentLine want have_) := by
  rw [aliasLines, List.mem_append]
  refine or_congr ?_ ?_
  · split <;> simp_all
  · split <;> simp_all

theorem aliasLines_perm_iff {want a b : GatewayAlias}
    : (aliasLines want a).Perm (aliasLines want b)
      ↔ a.kind = b.kind
        ∧ (contentSet a.content = contentSet want.content
          ↔ contentSet b.content = contentSet want.content)
        ∧ (contentSet a.content ≠ contentSet want.content →
          ", ".intercalate a.content = ", ".intercalate b.content) := by
  constructor
  · intro perm
    have kinds : a.kind ≠ want.kind ↔ b.kind ≠ want.kind := by
      have both := perm.mem_iff (a := kindLine want)
      simpa [mem_aliasLines, kindLine_ne] using both
    have said {x y : GatewayAlias} (perm : (aliasLines want x).Perm (aliasLines want y))
        (differs : contentSet x.content ≠ contentSet want.content)
        : contentSet y.content ≠ contentSet want.content
          ∧ ", ".intercalate x.content = ", ".intercalate y.content := by
      have member := perm.mem_iff.mp (mem_aliasLines.mpr (.inr ⟨differs, rfl⟩))
      rcases mem_aliasLines.mp member with ⟨-, is⟩ | ⟨differs', is⟩
      · exact absurd is.symm (kindLine_ne want x)
      · exact ⟨differs', contentLine_eq_iff.mp is⟩
    refine ⟨?_, ?_, fun differs => (said perm differs).2⟩
    · cases h : a.kind <;> cases h' : b.kind <;> cases h'' : want.kind <;> simp_all
    · refine not_iff_not.mp ⟨fun differs => (said perm differs).1, fun differs => ?_⟩
      exact (said perm.symm differs).1
  · rintro ⟨kind, content, joined⟩
    refine List.Perm.of_eq ?_
    rw [aliasLines, aliasLines, kind]
    by_cases same : contentSet a.content = contentSet want.content
    · simp [same, content.mp same]
    · rw [if_pos same, if_pos (mt content.mpr same), contentLine_eq_iff.mpr (joined same)]

-----------------------------------------------------------------------------------------
-- Lines about one rule
-----------------------------------------------------------------------------------------

/-- A field's line names the field, and with the declared text also the observed one. -/
theorem fieldLine_inj {description name name' have_ have' want want' : String}
    (word : ' ' ∉ name.toList) (word' : ' ' ∉ name'.toList)
    (same : fieldLine description (name, have_, want)
      = fieldLine description (name', have', want'))
    : name = name' ∧ (want = want' → have_ = have') := by
  have chars := congrArg String.toList same
  simp only [fieldLine, String.toList_append, List.append_assoc, List.append_cancel_left_eq] at chars
  have parts := append_sep_inj word word' chars
  have cut := @List.append_cancel_left _ "is '".toList _ _ parts.2
  refine ⟨String.toList_inj.mp parts.1, fun same => String.toList_inj.mp ?_⟩
  subst same
  exact List.append_cancel_right cut

theorem mem_fieldLines {description line : String} {fields : List (String × String × String)}
    : line ∈ fieldLines description fields
      ↔ ∃ field ∈ fields, field.2.1 ≠ field.2.2 ∧ fieldLine description field = line := by
  simp [fieldLines, and_assoc]

/-- What is reported of a field is reported of it on the other side too. -/
theorem field_eq_of_line {description : String} {fields fields' : List (String × String × String)}
    {field field' : String × String × String} (member : field ∈ fields) (member' : field' ∈ fields')
    (name : field.1 = field'.1) (want : field.2.2 = field'.2.2)
    (distinct : (fields'.map Prod.fst).Nodup) (words : ∀ other ∈ fields, ' ' ∉ other.1.toList)
    (words' : ∀ other ∈ fields', ' ' ∉ other.1.toList)
    (reported : ∀ line ∈ fieldLines description fields, line ∈ fieldLines description fields')
    (differs : field.2.1 ≠ field.2.2)
    : field = field' := by
  obtain ⟨other, inside, -, same⟩ :=
    mem_fieldLines.mp (reported _ (mem_fieldLines.mpr ⟨field, member, differs, rfl⟩))
  obtain ⟨names, observed⟩ := fieldLine_inj (words' other inside) (words field member) same
  have is : other = field' :=
    List.inj_on_of_nodup_map distinct inside member' (names.trans name)
  subst is
  exact Prod.ext name (Prod.ext (observed want.symm).symm want)

/-- Fields of the same names with the same declared texts are reported alike only when what was
observed is the same.
-/
theorem fields_eq_of_lines {description : String} {fields fields' : List (String × String × String)}
    (shape : fields.map (fun field => (field.1, field.2.2))
      = fields'.map (fun field => (field.1, field.2.2)))
    (distinct : (fields.map Prod.fst).Nodup) (words : ∀ field ∈ fields, ' ' ∉ field.1.toList)
    (same : ∀ line, line ∈ fieldLines description fields ↔ line ∈ fieldLines description fields')
    : fields = fields' := by
  have names : fields.map Prod.fst = fields'.map Prod.fst := by
    simpa [Function.comp_def] using congrArg (List.map Prod.fst) shape
  have words' : ∀ field ∈ fields', ' ' ∉ field.1.toList := by
    intro field member
    obtain ⟨other, inside, is⟩ := List.mem_map.mp (names ▸ List.mem_map_of_mem member)
    exact is ▸ words other inside
  have length : fields.length = fields'.length := by simpa using congrArg List.length names
  refine List.ext_getElem length fun i left right => ?_
  have at_ : (fields[i].1, fields[i].2.2) = (fields'[i].1, fields'[i].2.2) := by
    have cell := congrArg (fun l => l[i]?) shape
    simpa [left, right] using cell
  obtain ⟨name, want⟩ := Prod.mk.inj at_
  by_cases differs : fields[i].2.1 = fields[i].2.2
  · by_cases differs' : fields'[i].2.1 = fields'[i].2.2
    · exact Prod.ext name (Prod.ext (differs.trans (want.trans differs'.symm)) want)
    · exact (field_eq_of_line (List.getElem_mem right) (List.getElem_mem left) name.symm want.symm
        distinct words' words (fun line => (same line).mpr) differs').symm
  · exact field_eq_of_line (List.getElem_mem left) (List.getElem_mem right) name want
      (names ▸ distinct) words words' (fun line => (same line).mp) differs

theorem ruleFields_shape (want a b : GatewayRule)
    : (ruleFields want a).map (fun field => (field.1, field.2.2))
      = (ruleFields want b).map (fun field => (field.1, field.2.2)) := by
  unfold ruleFields
  cases want.sequence <;> rfl

theorem ruleFields_names (want have_ : GatewayRule)
    : ((ruleFields want have_).map Prod.fst).Nodup
      ∧ ∀ name ∈ (ruleFields want have_).map Prod.fst, ' ' ∉ name.toList ∧ name ≠ "is" := by
  have is : (ruleFields want have_).map Prod.fst
      = ["source", "destination", "protocol", "action", "destination_port", "log", "stateful"]
        ++ if want.sequence.isSome then ["sequence"] else [] := by
    unfold ruleFields
    cases want.sequence <;> rfl
  rw [is]
  cases want.sequence.isSome <;> decide

theorem sequenceText_eq_iff {have_ : Option UInt32} {seq : UInt32}
    : (have_.map toString).getD "" = toString seq ↔ have_ = some seq := by
  constructor
  · intro same
    cases have_ with
    | none =>
        have empty := congrArg String.toList same
        rw [Option.map_none, Option.getD_none] at empty
        exact absurd empty.symm (by
          rw [show toString seq = toString seq.toNat from rfl, toList_toString]
          exact decimal_ne_nil _)
    | some n =>
        have value : n.toNat = seq.toNat := toString_nat_injective same
        rw [UInt32.toNat_inj.mp value]
  · rintro rfl
    rfl

/-- The text of an observed sequence determines it. -/
theorem sequenceText_injective {a b : Option UInt32}
    (same : (a.map toString).getD "" = (b.map toString).getD "")
    : a = b := by
  cases b with
  | some n => exact sequenceText_eq_iff.mp same
  | none =>
      cases a with
      | none => rfl
      | some n => exact (sequenceText_eq_iff.mp same.symm).symm

theorem asStr_injective {a b : GatewayAction} (same : a.asStr = b.asStr) : a = b := by
  cases a <;> cases b <;> first | rfl | exact absurd same (by decide)

theorem ruleFields_eq_iff {want a b : GatewayRule}
    : ruleFields want a = ruleFields want b ↔ RuleAlike want a b := by
  constructor
  · intro same
    cases declared : want.sequence with
    | none =>
        simp only [ruleFields, declared, List.cons_append, List.nil_append, List.cons.injEq,
          Prod.mk.injEq, and_true, true_and] at same
        obtain ⟨source, destination, protocol, action, port, log, stateful⟩ := same
        exact ⟨source, destination, protocol, asStr_injective action, port,
          toString_bool_injective log, toString_bool_injective stateful, fun some => absurd declared some⟩
    | some seq =>
        simp only [ruleFields, declared, List.cons_append, List.nil_append, List.cons.injEq,
          Prod.mk.injEq, and_true, true_and] at same
        obtain ⟨source, destination, protocol, action, port, log, stateful, sequence⟩ := same
        exact ⟨source, destination, protocol, asStr_injective action, port,
          toString_bool_injective log, toString_bool_injective stateful,
          fun _ => sequenceText_injective sequence⟩
  · rintro ⟨source, destination, protocol, action, port, log, stateful, sequence⟩
    unfold ruleFields
    rw [source, destination, protocol, action, port, log, stateful]
    cases declared : want.sequence with
    | none => rfl
    | some seq => rw [sequence (by simp [declared])]

theorem ruleLines_perm_iff {disabledRules : List String} {want a b : GatewayRule}
    : (ruleLines disabledRules want a).Perm (ruleLines disabledRules want b)
      ↔ RuleAlike want a b := by
  rw [← ruleFields_eq_iff]
  constructor
  · intro perm
    rw [ruleLines, ruleLines, List.perm_append_right_iff] at perm
    exact fields_eq_of_lines (ruleFields_shape want a b) (ruleFields_names want a).1
      (fun field member => ((ruleFields_names want a).2 _ (List.mem_map_of_mem member)).1)
      fun line => perm.mem_iff
  · intro same
    rw [ruleLines, ruleLines, same]

theorem fieldLines_eq_nil_iff {description : String} {fields : List (String × String × String)}
    : fieldLines description fields = [] ↔ ∀ field ∈ fields, field.2.1 = field.2.2 := by
  simp [fieldLines, List.filter_eq_nil_iff]

theorem ruleLines_eq_nil_iff {disabledRules : List String} {want have_ : GatewayRule}
    : ruleLines disabledRules want have_ = [] ↔ ComparedRule disabledRules want have_ := by
  rw [ruleLines, List.append_eq_nil_iff, fieldLines_eq_nil_iff]
  constructor
  · rintro ⟨fields, enabled⟩
    simp only [ruleFields, List.cons_append, List.nil_append, List.forall_mem_cons] at fields
    obtain ⟨source, destination, protocol, action, port, log, stateful, rest⟩ := fields
    refine ⟨source, destination, protocol, asStr_injective action, port,
      toString_bool_injective log, toString_bool_injective stateful, fun seq declared => ?_,
      by simpa using enabled⟩
    rw [declared] at rest
    exact sequenceText_eq_iff.mp (rest _ (List.mem_singleton_self _))
  · rintro ⟨source, destination, protocol, action, port, log, stateful, sequence, enabled⟩
    refine ⟨?_, by simpa using enabled⟩
    simp only [ruleFields, List.cons_append, List.nil_append, List.forall_mem_cons]
    refine ⟨source, destination, protocol, congrArg _ action, port, congrArg _ log,
      congrArg _ stateful, ?_⟩
    cases declared : want.sequence with
    | none => simp
    | some seq => simp [sequence seq declared]

-----------------------------------------------------------------------------------------
-- The whole check
-----------------------------------------------------------------------------------------

variable {aliases : List GatewayAlias} {rules : List GatewayRule} {observed : GatewayObserved}

theorem aliasesAlike_iff {found : List GatewayAlias}
    : AliasesAlike aliases found
      ↔ Alike GatewayAlias.name GatewayAlias.name aliasLines found aliases := by
  simp only [AliasesAlike, Alike, aliasLines_perm_iff]

theorem rulesAlike_iff {disabledRules : List String} {found : List GatewayRule}
    : RulesAlike rules found
      ↔ Alike GatewayRule.description GatewayRule.description (ruleLines disabledRules) found
        rules := by
  simp only [RulesAlike, Alike, ruleLines_perm_iff]

/-- Which rules are disabled is a set. -/
theorem ruleDrift_disabled {disabledRules disabledRules' : List String} {found : List GatewayRule}
    (perm : disabledRules.Perm disabledRules')
    : ruleDrift rules disabledRules found = ruleDrift rules disabledRules' found := by
  have same : ruleLines disabledRules = ruleLines disabledRules' := by
    funext want have_
    simp only [ruleLines, List.contains_iff_mem, perm.mem_iff]
  rw [ruleDrift, ruleDrift, same]

theorem aliasDrift_perm {found found' : List GatewayAlias} (alike : AliasesAlike aliases found)
    (perm : found.Perm found')
    : (aliasDrift aliases found).Perm (aliasDrift aliases found') :=
  (reports_perm (aliasesAlike_iff.mp alike) perm).append (strays_perm perm)

theorem ruleDrift_perm {disabledRules : List String} {found found' : List GatewayRule}
    (alike : RulesAlike rules found) (perm : found.Perm found')
    : (ruleDrift rules disabledRules found).Perm (ruleDrift rules disabledRules found') :=
  (reports_perm (rulesAlike_iff.mp alike) perm).append (strays_perm perm)

/-- The check does not depend on the order of what is observed. -/
def Steady (aliases : List GatewayAlias) (rules : List GatewayRule) (observed : GatewayObserved)
    : Prop :=
  ∀ observed', Reordered observed observed' →
    gatewayDrift aliases rules observed' = gatewayDrift aliases rules observed

theorem steady_of_alike (aliasesAlike : AliasesAlike aliases observed.aliases)
    (rulesAlike : RulesAlike rules observed.rules)
    : Steady aliases rules observed := by
  intro observed' reordered
  rw [gatewayDrift, gatewayDrift, sortByKey_id_eq_iff, ← ruleDrift_disabled reordered.disabledRules]
  exact ((aliasDrift_perm aliasesAlike reordered.aliases).append
    (ruleDrift_perm rulesAlike reordered.rules)).symm

theorem alike_of_steady (names : (aliases.map GatewayAlias.name).Nodup)
    (descriptions : (rules.map GatewayRule.description).Nodup)
    (steady : Steady aliases rules observed)
    : AliasesAlike aliases observed.aliases ∧ RulesAlike rules observed.rules := by
  constructor
  · refine aliasesAlike_iff.mpr (alike_of_reports_perm aliasMissing names fun found perm => ?_)
    have same := steady { observed with aliases := found } ⟨perm, .refl _, .refl _⟩
    rw [gatewayDrift, gatewayDrift, sortByKey_id_eq_iff, List.perm_append_right_iff] at same
    exact (List.perm_append_right_iff _).mp
      (same.symm.trans ((strays_perm perm.symm).append_left _))
  · refine (@rulesAlike_iff _ observed.disabledRules _).mpr
      (alike_of_reports_perm ruleMissing descriptions fun found perm => ?_)
    have same := steady { observed with rules := found } ⟨.refl _, perm, .refl _⟩
    rw [gatewayDrift, gatewayDrift, sortByKey_id_eq_iff, List.perm_append_left_iff] at same
    exact (List.perm_append_right_iff _).mp
      (same.symm.trans ((strays_perm perm.symm).append_left _))

/-- Nothing is reported exactly when everything that is compared agrees. -/
theorem gatewayDrift_eq_nil_iff (names : (aliases.map GatewayAlias.name).Nodup)
    (descriptions : (rules.map GatewayRule.description).Nodup)
    (aliasesAlike : AliasesAlike aliases observed.aliases)
    (rulesAlike : RulesAlike rules observed.rules)
    : gatewayDrift aliases rules observed = [] ↔ InSyncAsCompared aliases rules observed := by
  have empty (lines : List String) : sortByKey id lines = [] ↔ lines = [] := by
    rw [← List.length_eq_zero_iff, (perm_sortByKey lines).length_eq, List.length_eq_zero_iff]
  rw [gatewayDrift, empty, List.append_eq_nil_iff]
  refine and_congr ?_ ?_
  · rw [aliasDrift, List.append_eq_nil_iff,
      silent_iff names (by simp [aliasMissing]) (aliasesAlike_iff.mp aliasesAlike)]
    simp only [Paired, aliasLines_eq_nil_iff]
  · rw [ruleDrift, List.append_eq_nil_iff,
      silent_iff descriptions (by simp [ruleMissing]) (rulesAlike_iff.mp rulesAlike)]
    simp only [Paired, ruleLines_eq_nil_iff]

theorem Paired.mono {α : Type} {name : α → String} {same same' : α → α → Prop}
    {declared found : List α} (paired : Paired name same declared found)
    (weaker : ∀ want ∈ declared, ∀ have_ ∈ found, name have_ = name want →
      same want have_ → same' want have_)
    : Paired name same' declared found := by
  refine ⟨fun want member => ?_, fun have_ member => ?_⟩
  · obtain ⟨have_, mem, own, is⟩ := paired.1 want member
    exact ⟨have_, mem, own, weaker want member have_ mem own is⟩
  · obtain ⟨want, mem, own, is⟩ := paired.2 have_ member
    exact ⟨want, mem, own, weaker want mem have_ member own.symm is⟩

/-- With distinct declared names, an observed object of a declared name is that one. -/
theorem Paired.same {α : Type} {name : α → String} {same : α → α → Prop} {declared found : List α}
    (paired : Paired name same declared found) (distinct : (declared.map name).Nodup)
    {want have_ : α} (member : want ∈ declared) (mem : have_ ∈ found)
    (own : name have_ = name want)
    : same want have_ := by
  obtain ⟨other, inside, own', is⟩ := paired.2 have_ mem
  exact List.inj_on_of_nodup_map distinct inside member (own'.trans own) ▸ is

theorem inSync_iff (names : (aliases.map GatewayAlias.name).Nodup)
    (descriptions : (rules.map GatewayRule.description).Nodup)
    : InSync aliases rules observed
      ↔ InSyncAsCompared aliases rules observed ∧ UncomparedAgree aliases rules observed := by
  constructor
  · rintro ⟨aliasesIn, rulesIn⟩
    refine ⟨⟨aliasesIn.mono fun _ _ _ _ _ is => is.toComparedAlias,
      rulesIn.mono fun _ _ _ _ _ is => is.toComparedRule⟩, ?_, ?_⟩
    · intro want member have_ mem own
      exact (aliasesIn.same names member mem own).description
    · intro want member have_ mem own
      exact (rulesIn.same descriptions member mem own).destinationPort
  · rintro ⟨⟨aliasesIn, rulesIn⟩, texts, ports⟩
    refine ⟨aliasesIn.mono fun want member have_ mem own is => ?_,
      rulesIn.mono fun want member have_ mem own is => ?_⟩
    · exact ⟨is, texts want member have_ mem own⟩
    · exact ⟨is, ports want member have_ mem own⟩

/-- The check finds every drift, whatever the order of what is observed, exactly when observed
objects of one declared name agree in what is compared, and what is not compared agrees where all
the rest does.
-/
theorem gatewayDrift_exact_iff (names : (aliases.map GatewayAlias.name).Nodup)
    (descriptions : (rules.map GatewayRule.description).Nodup)
    : ((gatewayDrift aliases rules observed = [] ↔ InSync aliases rules observed)
        ∧ ∀ observed', Reordered observed observed' →
          gatewayDrift aliases rules observed' = gatewayDrift aliases rules observed)
      ↔ (AliasesAlike aliases observed.aliases ∧ RulesAlike rules observed.rules)
        ∧ (InSyncAsCompared aliases rules observed → UncomparedAgree aliases rules observed) := by
  rw [inSync_iff names descriptions]
  constructor
  · rintro ⟨exact_, steady⟩
    have alike := alike_of_steady names descriptions steady
    refine ⟨alike, fun compared => ?_⟩
    exact (exact_.mp ((gatewayDrift_eq_nil_iff names descriptions alike.1 alike.2).mpr compared)).2
  · rintro ⟨alike, rest⟩
    refine ⟨?_, steady_of_alike alike.1 alike.2⟩
    rw [gatewayDrift_eq_nil_iff names descriptions alike.1 alike.2]
    exact ⟨fun compared => ⟨compared, rest compared⟩, And.left⟩

/-- A rule that passes, and the appliance's second one of its description, which blocks. -/
def web : GatewayRule :=
  { description := "web", source := "any", destination := "web_servers",
    protocol := some "TCP", action := .pass, destinationPort := some "443", log := false,
    stateful := true, sequence := none }

def shadowed : GatewayObserved :=
  { aliases := [], rules := [web, { web with action := .block }], disabledRules := [] }

theorem gatewayDrift_exact_web
    : ((gatewayDrift [] [web] shadowed = [] ↔ InSync [] [web] shadowed)
        ∧ ∀ observed', Reordered shadowed observed' →
          gatewayDrift [] [web] observed' = gatewayDrift [] [web] shadowed)
      ↔ (AliasesAlike [] shadowed.aliases ∧ RulesAlike [web] shadowed.rules)
        ∧ (InSyncAsCompared [] [web] shadowed → UncomparedAgree [] [web] shadowed) :=
  gatewayDrift_exact_iff (by decide) (by decide)

/-- A second rule of a declared description goes unreported when it is listed last. -/
theorem shadowing_rule_missed
    : ¬ ∀ (aliases : List GatewayAlias) (rules : List GatewayRule) (observed : GatewayObserved),
      (aliases.map GatewayAlias.name).Nodup → (rules.map GatewayRule.description).Nodup →
      (gatewayDrift aliases rules observed = [] ↔ InSync aliases rules observed)
      ∧ ∀ observed', Reordered observed observed' →
        gatewayDrift aliases rules observed' = gatewayDrift aliases rules observed := by
  intro all
  have own : ruleLines [] web web = [] :=
    ruleLines_eq_nil_iff.mpr ⟨rfl, rfl, rfl, rfl, rfl, rfl, rfl, fun _ declared => declared, by simp⟩
  have silent : gatewayDrift [] [web] shadowed = [] := by
    simp [gatewayDrift, aliasDrift, ruleDrift, reports, report, strays, shadowed, own, sortByKey]
  have synced := ((all [] [web] shadowed (by decide) (by decide)).1.mp silent).2.2
  obtain ⟨want, member, -, same⟩ := synced { web with action := .block } (by simp [shadowed])
  rw [List.mem_singleton.mp member] at same
  exact absurd same.action (by decide)

end Delonix.Networking
