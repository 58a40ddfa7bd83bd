import PayloadSchema.Proofs.Tree.Reporting

/-! The stage that refuses a list of descriptors. It is the first one that is not passed, and whether a stage is passed
does not depend on the order of the descriptors. So a list that is refused is refused by the same stage in every
order. -/
namespace PayloadSchema

namespace Descriptor

variable {limits : Limits} {ds es : List Descriptor} {d : Descriptor} {k : Nat} {p : Problem} {stage : Stage}
  {found : List Problem}

theorem unwritable_stage (long : p.isWritable = false) : p.stage ≠ .collection := by
  cases p <;> simp_all [Problem.isWritable, Problem.stage]

/-- What it takes to pass each stage. -/
def Passes (limits : Limits) (ds : List Descriptor) : Stage → Prop
  | .nodes => ∀ d ∈ ds, ∀ p, ¬ Breaks limits d p
  | .collection => Collected ds
  | .links => ∀ d ∈ ds, ∀ p, ¬ Dangles ds d p
  | .walk => ∀ p, ¬ Strays ds p
  | .depth => ∀ p, ¬ Exceeds limits ds p

theorem root_report_nil_iff {root : List Problem} (report : RootReport ds root) :
    root = [] ↔ ∃ r, ds.filter (·.parent = []) = [r] ∧ r.Declares .object := by
  cases report with
  | count several =>
    refine ⟨fun none => absurd none (List.cons_ne_nil _ _), fun ⟨r, alone, _⟩ => absurd ?_ several⟩
    rw [alone, List.length_singleton]
  | type alone other =>
    refine ⟨fun none => absurd none (List.cons_ne_nil _ _), fun ⟨r, single, object⟩ => absurd object ?_⟩
    rwa [← List.singleton_inj.mp (alone.symm.trans single)]
  | fine alone object => exact ⟨fun _ => ⟨_, alone, object⟩, fun _ => rfl⟩

theorem collection_report_nil_iff (report : CollectionReport ds found) : found = [] ↔ Collected ds := by
  obtain ⟨firsts, root, ⟨_, groups, _⟩, rooted, rfl⟩ := report
  have distinct : firsts = [] ↔ (ds.map key).Nodup := by
    rw [List.nodup_iff_count_le_one, ← List.map_eq_nil_iff (f := key), List.eq_nil_iff_forall_not_mem]
    exact forall_congr' fun k => (not_congr (groups k)).trans (Nat.not_le.trans Nat.lt_succ_iff)
  rw [List.append_eq_nil_iff, List.map_eq_nil_iff, distinct, root_report_nil_iff rooted, ← filter_parentless]
  exact ⟨fun ⟨keys, alone⟩ => ⟨keys, alone⟩, fun ⟨keys, alone⟩ => ⟨keys, alone⟩⟩

/-- A stage has nothing to report exactly when it is passed. -/
theorem report_nil_iff (report : StageReport limits ds stage found) : found = [] ↔ Passes limits ds stage := by
  cases stage with
  | nodes => exact reports_each_nil_iff report
  | collection => exact collection_report_nil_iff report
  | links => exact reports_each_nil_iff report
  | walk => exact report.eq_nil_iff
  | depth => exact report.eq_nil_iff

section Reordered
variable (perm : ds.Perm es)
include perm

theorem dangles_perm (dangles : Dangles ds d p) : Dangles es d p := by
  cases dangles with
  | unknownParent given unknown => exact .unknownParent given fun e member => unknown e (perm.mem_iff.mpr member)
  | ownParent own => exact .ownParent own
  | unknownChild listed unknown => exact .unknownChild listed fun e member => unknown e (perm.mem_iff.mpr member)
  | repeatedChild again => exact .repeatedChild again

theorem descended_perm (descended : Descended ds d) : Descended es d := by
  induction descended with
  | top member parentless => exact .top (perm.mem_iff.mp member) parentless
  | child _ member listed named ih => exact .child ih (perm.mem_iff.mp member) listed named

theorem strays_perm (strays : Strays ds p) : Strays es p := by
  cases strays with
  | cyclic above member listed other => exact .cyclic (descended_perm perm above) (perm.mem_iff.mp member) listed other
  | unreached member never =>
    exact .unreached (perm.mem_iff.mp member) fun reached => never (descended_perm perm.symm reached)

theorem climbs_perm (climbs : Climbs ds k d) : Climbs es k d := by
  induction climbs with
  | top member parentless => exact .top (perm.mem_iff.mp member) parentless
  | up member named _ ih => exact .up (perm.mem_iff.mp member) named ih

theorem collected_perm (collected : Collected ds) : Collected es := by
  obtain ⟨distinct, root, alone, object⟩ := collected
  refine ⟨(perm.map key).nodup_iff.mp distinct, root, ?_, object⟩
  exact List.perm_singleton.mp (alone ▸ perm.symm.filter _)

theorem exceeds_perm (exceeds : Exceeds limits ds p) : Exceeds limits es p := by
  obtain ⟨climbs, deep⟩ := exceeds
  exact .tooDeep (climbs_perm perm climbs) deep

/-- No stage looks at the order of the descriptors. -/
theorem passes_perm (passes : Passes limits ds stage) : Passes limits es stage := by
  cases stage with
  | nodes => exact fun d member => passes d (perm.mem_iff.mpr member)
  | collection => exact collected_perm perm passes
  | links => exact fun d member p dangles => passes d (perm.mem_iff.mpr member) p (dangles_perm perm.symm dangles)
  | walk => exact fun p strays => passes p (strays_perm perm.symm strays)
  | depth => exact fun p exceeds => passes p (exceeds_perm perm.symm exceeds)

/-- What a stage reports it reports in every order, but for names, of which the first in the order is shown. -/
theorem report_perm {again : List Problem} (report : StageReport limits ds stage found)
    (reordered : StageReport limits es stage again) (single : stage ≠ .collection) (listed : p ∈ found) : p ∈ again := by
  cases stage with
  | nodes =>
    obtain ⟨d, member, broken⟩ := (mem_reports_each report).mp listed
    exact (mem_reports_each reordered).mpr ⟨d, perm.mem_iff.mp member, broken⟩
  | collection => exact absurd rfl single
  | links =>
    obtain ⟨d, member, broken⟩ := (mem_reports_each report).mp listed
    exact (mem_reports_each reordered).mpr ⟨d, perm.mem_iff.mp member, dangles_perm perm broken⟩
  | walk => exact (reordered.complete p).mpr (strays_perm perm ((report.complete p).mp listed))
  | depth => exact (reordered.complete p).mpr (exceeds_perm perm ((report.complete p).mp listed))

end Reordered

/-- The first stage that is not passed; none where all of them are. -/
def FirstFailing (limits : Limits) (ds : List Descriptor) : Option Stage → Prop
  | none => ∀ stage, Passes limits ds stage
  | some stage => ¬ Passes limits ds stage ∧ ∀ other ∈ stage.before, Passes limits ds other

theorem verdict_failing {outcome : Outcome} (verdict : Verdict limits ds outcome) :
    FirstFailing limits ds outcome.stage? := by
  cases verdict with
  | built clean => exact fun stage => (report_nil_iff (clean stage)).mp rfl
  | rejected earlier report given =>
    rw [rejected_stage report given]
    exact ⟨fun passes => given ((report_nil_iff report).mpr passes), fun other before =>
      (report_nil_iff (earlier other before)).mp rfl⟩

theorem before_total (r s : Stage) : r = s ∨ r ∈ s.before ∨ s ∈ r.before := by
  cases r <;> cases s <;> decide

theorem failing_perm (perm : ds.Perm es) {first : Option Stage} (failing : FirstFailing limits ds first) :
    FirstFailing limits es first := by
  cases first with
  | none => exact fun stage => passes_perm perm (failing stage)
  | some stage =>
    exact ⟨fun passes => failing.1 (passes_perm perm.symm passes), fun other before =>
      passes_perm perm (failing.2 other before)⟩

theorem failing_unique {first second : Option Stage} (one : FirstFailing limits ds first)
    (other : FirstFailing limits ds second) : first = second := by
  cases first with
  | none =>
    cases second with
    | none => rfl
    | some s => exact absurd (one s) other.1
  | some r =>
    cases second with
    | none => exact absurd (other r) one.1
    | some s =>
      rcases before_total r s with rfl | before | before
      · rfl
      · exact absurd (other.2 r before) one.1
      · exact absurd (one.2 s before) other.1

/-- Problems that cannot be written are found in every order. -/
theorem unwritable_perm (perm : ds.Perm es) {o r : Outcome} (verdict : Verdict limits ds o)
    (reordered : Verdict limits es r) (listed : p ∈ o.problems) (long : p.isWritable = false) : p ∈ r.problems := by
  have stages := failing_unique (failing_perm perm (verdict_failing verdict)) (verdict_failing reordered)
  cases verdict with
  | built _ => exact absurd listed List.not_mem_nil
  | @rejected stage _ _ report given =>
    have single : stage ≠ .collection := by
      rw [← report_stage report p listed]
      exact unwritable_stage long
    rw [rejected_stage report given] at stages
    cases reordered with
    | built _ => cases stages
    | rejected _ again given =>
      rw [rejected_stage again given] at stages
      obtain rfl := Option.some.inj stages
      exact report_perm perm report again single listed

end Descriptor

end PayloadSchema
