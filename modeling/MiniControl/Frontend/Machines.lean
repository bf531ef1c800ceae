import MiniControl.Calendar.Timestamp
import MiniControl.Fleet.Model
import MiniControl.Tables.Ordering
import Mathlib.Data.List.Pairwise

/-!
# The numbers of the machines

The frontend numbers the workstations of a member by the texts of their creation
times. The texts are those of the server, which writes a time with its fraction of a
second and leaves out the zeros at the end. The comparison of the browser reads them
character by character, so that the order of the numbers is the order of creation only
where no fraction goes on behind the end of another one of the same second.
-/

namespace MiniControl.Frontend

open Calendar

/-- `WorkstationInfo`. The server leaves out an address and an error that are empty. -/
structure WorkstationInfo where
  id : String
  memberID : String
  workerID : String
  slot : ℤ
  vmName : String
  powerState : Fleet.PowerState
  desiredPowerState : Fleet.DesiredPowerState
  ipAddress : Option String
  lastError : Option String
  createdAt : String
  updatedAt : String
  deriving DecidableEq

/-- `MachineSummary`. -/
structure MachineSummary where
  id : String
  number : ℕ
  label : String
  workstation : WorkstationInfo
  deriving DecidableEq

/-- `Array.prototype.sort`, which is stable. -/
def sort {Item : Type} (comparison : Item → Item → Ordering) (items : List Item) : List Item :=
  Tables.sortBy [fun left right => (comparison left right).isLE] items

/-- The comparison of two workstations, for a given `localeCompare`. -/
def compareWorkstations (localeCompare : String → String → Ordering)
    (left right : WorkstationInfo) : Ordering :=
  let createdAtComparison := localeCompare left.createdAt right.createdAt
  if createdAtComparison ≠ .eq then createdAtComparison
  else localeCompare left.id right.id

/-- `buildMachineSummaries`. -/
def buildMachineSummaries (localeCompare : String → String → Ordering)
    (workstations : List WorkstationInfo) : List MachineSummary :=
  (sort (compareWorkstations localeCompare) workstations).mapIdx fun index workstation =>
    { id := workstation.id
      number := index + 1
      label := "Machine " ++ toString (index + 1)
      workstation }

/-- The printable characters of ASCII. -/
def isPrintable (c : Char) : Bool := 32 ≤ c.toNat && c.toNat < 127

/-- What is assumed of `localeCompare`: it is a consistent comparison, it tells apart texts
of ASCII, and it reads the texts of times character by character, with the decimal point
before the digits and the digits before the letters. -/
structure Collates (localeCompare : String → String → Ordering) (rank : Char → ℕ) : Prop where
  consistent : Std.TransCmp localeCompare
  ascii : ∀ a b : String, a.toList.all isPrintable = true → b.toList.all isPrintable = true →
    localeCompare a b = .eq → a = b
  stamps : ∀ a b : String, a.toList.all isStampChar = true → b.toList.all isStampChar = true →
    localeCompare a b = Text.collate rank a.toList b.toList
  ranks : RanksStamps rank

/-- The order of creation, with ties broken by the ids. -/
def CreatedBefore (localeCompare : String → String → Ordering) (created : WorkstationInfo → ℤ)
    (a b : WorkstationInfo) : Prop :=
  created a < created b ∨ created a = created b ∧ localeCompare a.id b.id = .lt

/-- A list that the server has written: distinct ids of ASCII, and the creation times as
texts in the zone of an offset. -/
structure Listed (offset : ℤ) (created : WorkstationInfo → ℤ)
    (workstations : List WorkstationInfo) : Prop where
  ids : (workstations.map WorkstationInfo.id).Nodup
  ascii : ∀ w ∈ workstations, w.id.toList.all isPrintable = true
  texts : ∀ w ∈ workstations, strictRFC3339 offset (created w) = some w.createdAt.toList

section Sorting

variable {localeCompare : String → String → Ordering} {a b : WorkstationInfo}

/-- Workstations are compared by their times of creation and then by their ids. -/
theorem compareWorkstations_eq (localeCompare : String → String → Ordering)
    (a b : WorkstationInfo) :
    compareWorkstations localeCompare a b =
      (localeCompare a.createdAt b.createdAt).then (localeCompare a.id b.id) := by
  rw [compareWorkstations]
  cases localeCompare a.createdAt b.createdAt <;> rfl

/-- A comparison of strings that is transitive makes the comparison of workstations
transitive. -/
theorem transCmp_compareWorkstations (h : Std.TransCmp localeCompare) :
    Std.TransCmp (compareWorkstations localeCompare) := by
  have hkey (key : WorkstationInfo → String) :
      Std.TransCmp fun a b => localeCompare (key a) (key b) :=
    { eq_swap := Std.OrientedCmp.eq_swap
      isLE_trans := Std.TransCmp.isLE_trans }
  have hcreated := hkey WorkstationInfo.createdAt
  have hid := hkey WorkstationInfo.id
  have heq : compareWorkstations localeCompare = compareLex
      (fun a b => localeCompare a.createdAt b.createdAt) (fun a b => localeCompare a.id b.id) :=
    funext fun a => funext fun b => compareWorkstations_eq localeCompare a b
  rw [heq]
  infer_instance

/-- A consistent comparison is one to sort by. -/
theorem isKey_of_transCmp {Item : Type} {comparison : Item → Item → Ordering}
    (h : Std.TransCmp comparison) :
    Tables.IsKey fun left right => (comparison left right).isLE where
  total a b := by
    have hswap : comparison a b = (comparison b a).swap := Std.OrientedCmp.eq_swap
    rw [hswap]
    cases comparison b a
    · exact .inr rfl
    · exact .inl rfl
    · exact .inl rfl
  trans _ _ _ := Std.TransCmp.isLE_trans

end Sorting

section Numbering

variable {localeCompare : String → String → Ordering} {rank : Char → ℕ} {offset : ℤ}
  {created : WorkstationInfo → ℤ} {workstations : List WorkstationInfo} {a b : WorkstationInfo}

/-- The comparison tells the workstations of a list apart. -/
theorem Listed.eq_of_compareWorkstations (hlisted : Listed offset created workstations)
    (hcollates : Collates localeCompare rank) (ha : a ∈ workstations) (hb : b ∈ workstations)
    (h : compareWorkstations localeCompare a b = .eq) : a = b := by
  rw [compareWorkstations_eq, Ordering.then_eq_eq] at h
  have hid : a.id = b.id :=
    hcollates.ascii a.id b.id (hlisted.ascii a ha) (hlisted.ascii b hb) h.2
  exact List.inj_on_of_nodup_map hlisted.ids ha hb hid

/-- The machines do not depend on the order of the list. -/
theorem Listed.sort_eq (hlisted : Listed offset created workstations)
    (hcollates : Collates localeCompare rank) {listed : List WorkstationInfo}
    (hperm : workstations.Perm listed) :
    sort (compareWorkstations localeCompare) workstations =
      sort (compareWorkstations localeCompare) listed := by
  have hconsistent := transCmp_compareWorkstations hcollates.consistent
  refine Tables.sortBy_eq ?_ hperm ?_
  · intro le hle
    rw [List.mem_singleton.mp hle]
    exact isKey_of_transCmp hconsistent
  · intro a ha b hb hties
    have htie := hties _ List.mem_cons_self
    exact hlisted.eq_of_compareWorkstations hcollates ha hb
      (Std.OrientedCmp.isLE_antisymm htie.1 htie.2)

/-- The machines are in the strict order of the comparison. -/
theorem Listed.pairwise_sort (hlisted : Listed offset created workstations)
    (hcollates : Collates localeCompare rank) :
    (sort (compareWorkstations localeCompare) workstations).Pairwise fun a b =>
      compareWorkstations localeCompare a b = .lt := by
  have hconsistent := transCmp_compareWorkstations hcollates.consistent
  have hperm : (sort (compareWorkstations localeCompare) workstations).Perm workstations :=
    Tables.perm_sortBy _ workstations
  have hsorted : (sort (compareWorkstations localeCompare) workstations).Pairwise fun a b =>
      Tables.orderBy [fun a b => (compareWorkstations localeCompare a b).isLE] a b = true := by
    refine Tables.pairwise_sortBy ?_ workstations
    intro le hle
    rw [List.mem_singleton.mp hle]
    exact isKey_of_transCmp hconsistent
  have hnodup : (sort (compareWorkstations localeCompare) workstations).Nodup :=
    hperm.nodup_iff.mpr hlisted.ids.of_map
  refine (hsorted.and hnodup).imp_of_mem ?_
  intro a b ha hb ⟨horder, hne⟩
  have hle := (Tables.orderBy_cons.mp horder).1
  have hnot : compareWorkstations localeCompare a b ≠ .eq := fun heq => hne
    (hlisted.eq_of_compareWorkstations hcollates (hperm.mem_iff.mp ha) (hperm.mem_iff.mp hb) heq)
  exact (Ordering.isLE_iff_eq_lt_or_eq_eq.mp hle).resolve_right hnot

/-- The texts of two creation times are read character by character. -/
theorem Listed.localeCompare_createdAt (hlisted : Listed offset created workstations)
    (hcollates : Collates localeCompare rank) (ha : a ∈ workstations) (hb : b ∈ workstations) :
    localeCompare a.createdAt b.createdAt =
      Text.collate rank a.createdAt.toList b.createdAt.toList :=
  hcollates.stamps _ _ (all_of_strictRFC3339 (hlisted.texts a ha))
    (all_of_strictRFC3339 (hlisted.texts b hb))

/-- The texts of two creation times are the same exactly when the times are. -/
theorem Listed.tie_iff (hlisted : Listed offset created workstations)
    (hcollates : Collates localeCompare rank) (ha : a ∈ workstations) (hb : b ∈ workstations) :
    localeCompare a.createdAt b.createdAt = .eq ↔ created a = created b := by
  rw [hlisted.localeCompare_createdAt hcollates ha hb]
  exact collate_eq_eq_iff hcollates.ranks (hlisted.texts a ha) (hlisted.texts b hb)

/-- The text of a workstation stands to another one as its creation time does. -/
def Agree (localeCompare : String → String → Ordering) (created : WorkstationInfo → ℤ)
    (a b : WorkstationInfo) : Prop :=
  localeCompare a.createdAt b.createdAt = compare (created a) (created b)

/-- It does not matter which of the two workstations comes first. -/
theorem Agree.symm [Std.TransCmp localeCompare] (h : Agree localeCompare created a b) :
    Agree localeCompare created b a := by
  have hswap : localeCompare b.createdAt a.createdAt =
      (localeCompare a.createdAt b.createdAt).swap := Std.OrientedCmp.eq_swap
  have hswap' : compare (created b) (created a) = (compare (created a) (created b)).swap :=
    Std.OrientedCmp.eq_swap
  rw [Agree, hswap, hswap', h]

/-- Workstations agree that are in the same order by the comparison and by creation. -/
theorem Listed.agree (hlisted : Listed offset created workstations)
    (hcollates : Collates localeCompare rank) (ha : a ∈ workstations) (hb : b ∈ workstations)
    (hless : compareWorkstations localeCompare a b = .lt)
    (hbefore : CreatedBefore localeCompare created a b) : Agree localeCompare created a b := by
  have htie := hlisted.tie_iff hcollates ha hb
  rw [compareWorkstations_eq, Ordering.then_eq_lt] at hless
  rcases hless with hless | ⟨heq, _⟩
  · have hne : created a ≠ created b := by
      intro h
      rw [htie.mpr h] at hless
      cases hless
    have hlt : created a < created b := hbefore.resolve_right fun h => hne h.1
    rw [Agree, hless, Int.compare_eq_lt.mpr hlt]
  · rw [Agree, heq, Int.compare_eq_eq.mpr (htie.mp heq)]

/-- The machines are in the order of creation exactly when every two of them agree. -/
theorem Listed.pairwise_created_iff (hlisted : Listed offset created workstations)
    (hcollates : Collates localeCompare rank) :
    (sort (compareWorkstations localeCompare) workstations).Pairwise
        (CreatedBefore localeCompare created) ↔
      ∀ a ∈ workstations, ∀ b ∈ workstations, Agree localeCompare created a b := by
  have hconsistent := hcollates.consistent
  have hmem {w : WorkstationInfo} :
      w ∈ sort (compareWorkstations localeCompare) workstations ↔ w ∈ workstations :=
    (Tables.perm_sortBy _ workstations).mem_iff
  have hsorted := hlisted.pairwise_sort hcollates
  constructor
  · intro hcreated a ha b hb
    have hsymm : Std.Symm (Agree localeCompare created) := ⟨fun _ _ => Agree.symm⟩
    have hself : ∀ w ∈ sort (compareWorkstations localeCompare) workstations,
        Agree localeCompare created w w := by
      intro w hw
      have htie := hlisted.tie_iff hcollates (hmem.mp hw) (hmem.mp hw)
      rw [Agree, htie.mpr rfl, Int.compare_eq_eq.mpr rfl]
    have hpairs : (sort (compareWorkstations localeCompare) workstations).Pairwise
        (Agree localeCompare created) := by
      refine (hsorted.and hcreated).imp_of_mem ?_
      intro a b ha hb ⟨hless, hbefore⟩
      exact hlisted.agree hcollates (hmem.mp ha) (hmem.mp hb) hless hbefore
    exact List.Pairwise.forall_of_forall hself hpairs (hmem.mpr ha) (hmem.mpr hb)
  · intro hagree
    refine hsorted.imp_of_mem ?_
    intro a b ha hb hless
    have hab : localeCompare a.createdAt b.createdAt = compare (created a) (created b) :=
      hagree a (hmem.mp ha) b (hmem.mp hb)
    rw [compareWorkstations_eq, hab, Ordering.then_eq_lt, Int.compare_eq_lt,
      Int.compare_eq_eq] at hless
    exact hless

/-- The machines are in the order of creation exactly when the sign of the zone is ranked
before every character by which the fraction of one goes on behind another one's. -/
theorem Listed.pairwise_created_iff_continues (hlisted : Listed offset created workstations)
    (hcollates : Collates localeCompare rank) :
    (sort (compareWorkstations localeCompare) workstations).Pairwise
        (CreatedBefore localeCompare created) ↔
      ∀ a ∈ workstations, ∀ b ∈ workstations, ∀ c,
        Continues (created a) (created b) c → rank (zoneSign offset) < rank c := by
  have hagree {a b : WorkstationInfo} (ha : a ∈ workstations) (hb : b ∈ workstations) :
      Agree localeCompare created a b ↔
        (∀ c, Continues (created a) (created b) c → rank (zoneSign offset) < rank c) ∧
        (∀ c, Continues (created b) (created a) c → rank (zoneSign offset) < rank c) := by
    rw [Agree, hlisted.localeCompare_createdAt hcollates ha hb]
    exact collate_eq_compare_iff hcollates.ranks (hlisted.texts a ha) (hlisted.texts b hb)
  rw [hlisted.pairwise_created_iff hcollates]
  constructor
  · intro h a ha b hb
    exact ((hagree ha hb).mp (h a ha b hb)).1
  · intro h a ha b hb
    exact (hagree ha hb).mpr ⟨h a ha b hb, h b hb a ha⟩

/-- In UTC the machines are in the order of creation exactly when no fraction goes on behind
another one of the same second. -/
theorem Listed.pairwise_created_utc_iff (hlisted : Listed 0 created workstations)
    (hcollates : Collates localeCompare rank) :
    (sort (compareWorkstations localeCompare) workstations).Pairwise
        (CreatedBefore localeCompare created) ↔
      ∀ a ∈ workstations, ∀ b ∈ workstations, ∀ c, ¬Continues (created a) (created b) c := by
  rw [hlisted.pairwise_created_iff_continues hcollates]
  constructor
  · intro h a ha b hb c hc
    have hletter : rank c < rank (zoneSign 0) := hcollates.ranks.lt_zoneSign_zero hc
    exact absurd (h a ha b hb c hc) hletter.asymm
  · intro h a ha b hb c hc
    exact absurd hc (h a ha b hb c)

/-- The summaries have the workstations in the order of the sort. -/
theorem map_workstation_buildMachineSummaries (localeCompare : String → String → Ordering)
    (workstations : List WorkstationInfo) :
    (buildMachineSummaries localeCompare workstations).map MachineSummary.workstation =
      sort (compareWorkstations localeCompare) workstations := by
  apply List.ext_getElem?
  intro index
  rw [List.getElem?_map, buildMachineSummaries, List.getElem?_mapIdx, Option.map_map]
  exact Option.map_id'

end Numbering

/-- The machines are the workstations of the list, numbered from one, the same in whatever
order the server lists them. Their order is the order of creation, with ties broken by
id, exactly when no text of a creation time ends, before a zone whose sign is ranked
behind the next character, where another one of the same second goes on. -/
theorem machine_numbers_iff {localeCompare : String → String → Ordering} {rank : Char → ℕ}
    (hcollates : Collates localeCompare rank) {offset : ℤ} {created : WorkstationInfo → ℤ}
    {workstations : List WorkstationInfo} (hlisted : Listed offset created workstations) :
    let machines := buildMachineSummaries localeCompare workstations
    (machines.map MachineSummary.workstation).Perm workstations ∧
    (∀ index machine, machines[index]? = some machine →
      machine.number = index + 1 ∧ machine.label = "Machine " ++ toString (index + 1) ∧
      machine.id = machine.workstation.id) ∧
    (∀ listed, workstations.Perm listed → buildMachineSummaries localeCompare listed = machines) ∧
    ((machines.map MachineSummary.workstation).Pairwise (CreatedBefore localeCompare created) ↔
      ∀ a ∈ workstations, ∀ b ∈ workstations, ∀ c,
        Continues (created a) (created b) c → rank (zoneSign offset) < rank c) := by
  intro machines
  have hmachines : machines.map MachineSummary.workstation =
      sort (compareWorkstations localeCompare) workstations :=
    map_workstation_buildMachineSummaries localeCompare workstations
  rw [hmachines]
  refine ⟨Tables.perm_sortBy _ workstations, ?_, ?_, ?_⟩
  · intro index machine hmachine
    have hindex := List.getElem?_mapIdx.symm.trans hmachine
    obtain ⟨workstation, _, rfl⟩ := Option.map_eq_some_iff.mp hindex
    exact ⟨rfl, rfl, rfl⟩
  · intro listed hperm
    rw [buildMachineSummaries, ← hlisted.sort_eq hcollates hperm]
    rfl
  · exact hlisted.pairwise_created_iff_continues hcollates

/-- The comparison of texts by the code points of their characters. -/
def codePointCompare (a b : String) : Ordering := Text.collate Char.toNat a.toList b.toList

/-- The order of code points ranks the characters of timestamps as they should be. -/
theorem ranksStamps_toNat : RanksStamps Char.toNat where
  digits _ _ _ _ h := h
  dot d hd := by
    have hdigit := Char.isDigit_iff_toNat.mp hd
    exact lt_of_lt_of_le (by decide) hdigit.1
  letters letter hletter d hd := by
    have hhigh : 57 < letter.toNat := by
      simp only [List.mem_cons, List.not_mem_nil, or_false] at hletter
      rcases hletter with rfl | rfl <;> decide
    exact lt_of_le_of_lt (Char.isDigit_iff_toNat.mp hd).2 hhigh
  signs sign hsign c hc := by
    have hlow : sign.toNat < 46 := by
      simp only [List.mem_cons, List.not_mem_nil, or_false] at hsign
      rcases hsign with rfl | rfl <;> decide
    have hhigh : 46 ≤ c.toNat := by
      rcases hc with rfl | hc
      · decide
      · exact le_trans (by decide) (Char.isDigit_iff_toNat.mp hc).1
    omega

/-- The comparison of strings by code points is a collation by code points. -/
theorem collates_codePointCompare : Collates codePointCompare Char.toNat where
  consistent :=
    have hcollate (a b : List Char) :
        Text.collate Char.toNat a b = (Text.collate Char.toNat b a).swap := Std.OrientedCmp.eq_swap
    { eq_swap := hcollate _ _
      isLE_trans := fun {a b c} =>
        Std.TransCmp.isLE_trans (a := a.toList) (b := b.toList) (c := c.toList) }
  ascii a b _ _ h := by
    have hlawful : Std.LawfulEqCmp (compareOn Char.toNat) :=
      { compare_self := Std.ReflCmp.compare_self
        eq_of_compare := fun h => Char.toNat_inj.mp (Nat.compare_eq_eq.mp h) }
    have hcompare : List.compareLex (compareOn Char.toNat) a.toList b.toList = .eq := h
    exact String.toList_injective (Std.LawfulEqCmp.eq_of_compare hcompare)
  stamps _ _ _ _ := rfl
  ranks := ranksStamps_toNat

/-- A running workstation. -/
def runningWorkstation (id createdAt : String) : WorkstationInfo :=
  ⟨id, "member", "worker", 0, "vm", .running, .running, none, none, createdAt, createdAt⟩

/-- Two workstations of one second in UTC, whose fractions differ in the first digit, are
numbered in the order of creation although the server lists the later one first. -/
theorem machine_numbers_quarter :
    let workstations := [runningWorkstation "a" "2024-02-29T12:00:00.5Z",
      runningWorkstation "b" "2024-02-29T12:00:00.25Z"]
    let created (w : WorkstationInfo) : ℤ :=
      if w.id = "a" then 63844804800500000000 else 63844804800250000000
    ((buildMachineSummaries codePointCompare workstations).map MachineSummary.workstation).Pairwise
      (CreatedBefore codePointCompare created) := by
  intro workstations created
  have hlisted : Listed 0 created workstations := by
    refine ⟨by decide, by decide, by decide⟩
  have hfractions : ∀ a ∈ workstations, ∀ b ∈ workstations, ∀ c,
      ¬Continues (created a) (created b) c := by
    have htexts : ∀ w ∈ workstations, fraction (nanosecond (created w)) = ['.', '5'] ∨
        fraction (nanosecond (created w)) = ['.', '2', '5'] := by decide
    intro a ha b hb c hc
    have hprefix := hc.2
    rcases htexts a ha with ha | ha <;> rcases htexts b hb with hb | hb <;>
      simp [ha, hb] at hprefix
  have hall := machine_numbers_iff collates_codePointCompare hlisted
  exact hall.2.2.2.mpr fun a ha b hb c hc => absurd hc (hfractions a ha b hb c)

/-- A workstation that is created half a second after another one in UTC, which is created
at a full second, gets the first number. -/
theorem later_machine_first :
    let workstations := [runningWorkstation "a" "2024-02-29T12:00:00Z",
      runningWorkstation "b" "2024-02-29T12:00:00.5Z"]
    let created (w : WorkstationInfo) : ℤ :=
      if w.id = "a" then 63844804800000000000 else 63844804800500000000
    Collates codePointCompare Char.toNat ∧ Listed 0 created workstations ∧
    (buildMachineSummaries codePointCompare workstations).map (fun m => (m.number, m.id)) =
      [(1, "b"), (2, "a")] := by
  intro workstations created
  refine ⟨collates_codePointCompare, ⟨by decide, by decide, by decide⟩, by decide⟩

end MiniControl.Frontend
