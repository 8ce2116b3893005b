import DocTree.Proofs.Batch.Step

/-!
# Batches that come to one end

Edits agree if any two of them that lead to one text make the same of it, and nothing more of what
they have made. A batch of such edits comes to the same end whatever the schedule: every text is what
its edits make of it, as if they had been carried out one after another. Edits of different files
agree, so no update of theirs is lost.
-/
namespace DocTree

namespace FileSystem

/-- Two edits make the same of the text that both lead to, and leave it as it is from then on. -/
def AgreeOn (fs : FileSystem) (e f : FileEdit) : Prop :=
  ∀ place s, fs.Holds e.filename place s → fs.Holds f.filename place s →
    s.edited e.edits = s.edited f.edits ∧
      (s.edited e.edits).edited f.edits = s.edited e.edits ∧
      (s.edited f.edits).edited e.edits = s.edited f.edits

def Agree (fs : FileSystem) (edits : List FileEdit) : Prop :=
  edits.Pairwise fs.AgreeOn

/-- No two of some edits lead to one text. -/
def Unshared (fs : FileSystem) (edits : List FileEdit) : Prop :=
  edits.Pairwise fun e f => ∀ place s, fs.Holds e.filename place s → ¬ fs.Holds f.filename place s

/-- The place of the text that an edit leads to, and what it makes of it. -/
def intended? (fs : FileSystem) (e : FileEdit) : Option (List Text × Text) :=
  match fs.resolve (Path.plain e.filename), fs.readText e.filename with
  | .ok place, .ok s => some (place, s.edited e.edits)
  | _, _ => none

section

variable {fs : FileSystem} {edits more : List FileEdit} {e f : FileEdit}

theorem AgreeOn.symm (h : fs.AgreeOn e f) : fs.AgreeOn f e := by
  intro place s hf he
  obtain ⟨hsame, hef, hfe⟩ := h place s he hf
  exact ⟨hsame.symm, hfe, hef⟩

theorem Agree.perm (h : fs.Agree edits) (hperm : edits.Perm more) : fs.Agree more :=
  (hperm.pairwise_iff AgreeOn.symm).mp h

theorem Unshared.agree (h : fs.Unshared edits) : fs.Agree edits :=
  List.Pairwise.imp (fun hne place s he hf => absurd hf (hne place s he)) h

/-- Edits of files at different places are edits of different texts. -/
theorem Separate.unshared (h : fs.Separate edits) : fs.Unshared edits :=
  List.Pairwise.imp (fun hne _ _ he hf => hne (he.resolve.trans hf.resolve.symm)) h

theorem intended?_eq_some {c : List Text × Text} :
    fs.intended? e = some c ↔ ∃ s, fs.Holds e.filename c.1 s ∧ c.2 = s.edited e.edits := by
  constructor
  · intro h
    rw [intended?] at h
    split at h
    · rename_i place s hplace hs
      cases h
      obtain ⟨other, hholds⟩ := exists_holds hs
      cases hplace.symm.trans hholds.resolve
      exact ⟨s, hholds, rfl⟩
    · cases h
  · rintro ⟨s, hholds, hc⟩
    rw [intended?, hholds.resolve, hholds.readText]
    exact congrArg some (Prod.ext rfl hc.symm)

theorem Holds.intended? {place : List Text} {s : Text} (h : fs.Holds e.filename place s) :
    fs.intended? e = some (place, s.edited e.edits) :=
  intended?_eq_some.mpr ⟨s, h, rfl⟩

theorem intended?_eq_none {fault : Fault} (h : fs.readText e.filename = .error fault) :
    fs.intended? e = none := by
  rw [FileSystem.intended?, h]
  split
  · rename_i hok
    cases hok
  · rfl

/-- What agreeing edits make of texts is one thing for each place. -/
theorem Agree.consistent (h : fs.Agree edits) : fs.Consistent (edits.filterMap fs.intended?) := by
  constructor
  · intro c hc
    obtain ⟨e, -, he⟩ := List.mem_filterMap.mp hc
    obtain ⟨s, hholds, -⟩ := intended?_eq_some.mp he
    exact hholds.textAt
  · intro c hc d hd hplace
    obtain ⟨e, he, hce⟩ := List.mem_filterMap.mp hc
    obtain ⟨f, hf, hdf⟩ := List.mem_filterMap.mp hd
    obtain ⟨s, hs, hcs⟩ := intended?_eq_some.mp hce
    obtain ⟨t, ht, hdt⟩ := intended?_eq_some.mp hdf
    rw [hplace] at hs
    cases hs.text_eq ht
    rw [hcs, hdt]
    obtain rfl | hagree | hagree := eq_or_of_pairwise h he hf
    · rfl
    · exact (hagree d.1 s hs ht).1
    · exact (hagree d.1 s ht hs).1.symm

end

end FileSystem

namespace Batch

open FileSystem

variable {fs : FileSystem} {edits : List FileEdit} {b b' : Batch}

/-- The texts are those that the ended tasks were to make, and what is held becomes the same as the
text that was there at the start. -/
structure Settles (fs : FileSystem) (b : Batch) : Prop where
  fileSystem : b.fileSystem = fs.writtenAll ((Task.done b.tasks).filterMap fs.intended?)
  holding : ∀ e s, ⟨e, .holding s⟩ ∈ b.tasks → ∀ place t, fs.Holds e.filename place t →
    s.edited e.edits = t.edited e.edits

theorem settles_start (fs : FileSystem) (edits : List FileEdit) : Settles fs (start fs edits) where
  fileSystem := by
    rw [done_start]
    rfl
  holding e s h := by simp [start] at h

/-- What an edit reads in place of the text that was there at the start is as good. -/
theorem Settles.edited_eq {e : FileEdit} {s t : Text} {place : List Text} {before after : List Task}
    (h : Settles fs b) (hagree : fs.Agree (b.tasks.map Task.edit))
    (hb : b.tasks = before ++ ⟨e, .waiting⟩ :: after) (hs : b.fileSystem.Holds e.filename place s)
    (ht : fs.Holds e.filename place t) : s.edited e.edits = t.edited e.edits := by
  have hopen : Task.done b.tasks = Task.done (before ++ after) := by
    rw [hb, Task.done_append, Task.done_waiting, Task.done_append]
  have hothers : ∀ f ∈ Task.done (before ++ after), fs.AgreeOn e f := by
    have hperm : (b.tasks.map Task.edit).Perm (e :: (before ++ after).map Task.edit) := by
      rw [hb]
      exact List.perm_middle.map Task.edit
    intro f hf
    exact (List.pairwise_cons.mp (hagree.perm hperm)).1 f
      (List.mem_map_of_mem (f := Task.edit) (Task.mem_done hf))
  have hconsistent : fs.Consistent ((Task.done (before ++ after)).filterMap fs.intended?) := by
    have hsub : (Task.done (before ++ after)).filterMap fs.intended? ⊆
        (b.tasks.map Task.edit).filterMap fs.intended? := by
      rw [← hopen]
      exact List.filterMap_subset _ (Task.done_subset b.tasks)
    exact hagree.consistent.mono hsub
  have hfile := hs.at?
  rw [h.fileSystem, hopen] at hfile
  by_cases hchanged : ∃ c ∈ (Task.done (before ++ after)).filterMap fs.intended?, c.1 = place
  · -- Another edit has been there, which agrees with this one.
    obtain ⟨c, hc, rfl⟩ := hchanged
    obtain ⟨f, hf, hcf⟩ := List.mem_filterMap.mp hc
    obtain ⟨u, hu, hcu⟩ := intended?_eq_some.mp hcf
    cases hu.text_eq ht
    have hsc : s = c.2 := text_unique hfile (hconsistent.at?_writtenAll hc)
    obtain ⟨hsame, -, hagain⟩ := hothers f hf c.1 t ht hu
    rw [hsc, hcu, hagain, hsame]
  · have hsame := bytesAt?_writtenAll hconsistent.textAt fun c hc hplace => hchanged ⟨c, hc, hplace⟩
    rw [bytesAt?_eq_some.mpr hfile, bytesAt?_eq_some.mpr ht.at?] at hsame
    rw [Text.Utf8.encode_inj (Option.some.inj hsame)]

/-- What a task holds becomes what was intended, one step later too. -/
theorem Settles.holding_of_step (h : Settles fs b) (hunder : Underway fs edits b)
    (hagree : fs.Agree edits) (hstep : Step b b') (e : FileEdit) (s : Text)
    (hmem : ⟨e, .holding s⟩ ∈ b'.tasks) (place : List Text) (t : Text)
    (ht : fs.Holds e.filename place t) : s.edited e.edits = t.edited e.edits := by
  obtain hmem | ⟨⟨before, after, hb⟩, hread⟩ := hstep.holding hmem
  · exact h.holding e s hmem place t ht
  · obtain ⟨other, hs⟩ := exists_holds hread
    have hplace := (hunder.alike.leadsTo e.filename place).mpr ht.leadsTo
    cases hs.resolve.symm.trans hplace
    rw [← hunder.edits] at hagree
    exact h.edited_eq hagree hb hs ht

/-- One step keeps texts settled, if all edits agree. -/
theorem Settles.step (h : Settles fs b) (hunder : Underway fs edits b) (hagree : fs.Agree edits)
    (hstep : Step b b') : Settles fs b' := by
  have hholding := h.holding_of_step hunder hagree hstep
  have hedits := (hunder.step hstep).edits
  have hnow := h.fileSystem
  cases hstep with
  | idle => exact h
  | read before after faults hread => exact ⟨by simpa using hnow, hholding⟩
  | @refuse now e fault before after faults hread =>
    have hnone : fs.intended? e = none := by
      have hfault := FileSystem.fault?_eq_some.mpr hread
      rw [hunder.fault? e] at hfault
      exact intended?_eq_none (FileSystem.fault?_eq_some.mp hfault)
    exact ⟨by simpa [hnone] using hnow, hholding⟩
  | @write now now' e s before after faults hwrite =>
    have hmem : (⟨e, .holding s⟩ : Task) ∈ before ++ ⟨e, .holding s⟩ :: after := by simp
    obtain ⟨place, t, old, hholds, hold⟩ := hunder.holds hmem
    rw [hold.writeText] at hwrite
    cases hwrite
    have hdone : Task.done (before ++ ⟨e, .ended⟩ :: after) ⊆ edits := by
      rw [← hedits]
      exact Task.done_subset _
    have hconsistent := hagree.consistent.mono (List.filterMap_subset fs.intended? hdone)
    constructor
    · simp only [Task.done_append, Task.done_ended, Task.done_holding, List.filterMap_append,
        List.filterMap_cons, hholds.intended?] at hnow hconsistent ⊢
      rw [hnow, h.holding e s hmem place t hholds, hconsistent.perm List.perm_middle, writtenAll_cons]
    · exact hholding
  | @fail now e s fault before after faults hwrite =>
    obtain ⟨place, t, old, -, hold⟩ := hunder.holds (by simp : ⟨e, .holding s⟩ ∈ before ++ _)
    rw [hold.writeText] at hwrite
    cases hwrite

/-- Texts stay settled under way, if all edits agree. -/
theorem settles_follow (hagree : fs.Agree edits) (schedule : List Nat) :
    Settles fs ((start fs edits).follow schedule) := by
  have hrun : ∀ b, Underway fs edits b → Settles fs b → Settles fs (b.follow schedule) := by
    induction schedule with
    | nil => exact fun b _ h => h
    | cons i schedule ih =>
      intro b hunder h
      have hstep := step_advance b i
      exact ih _ (hunder.step hstep) (h.step hunder hagree hstep)
  exact hrun _ (underway_start fs edits) (settles_start fs edits)

/-- Edits that agree come to one end, whatever the schedule. -/
theorem fileSystem_follow (hagree : fs.Agree edits) {schedule : List Nat}
    (hfinished : ((start fs edits).follow schedule).IsFinished) :
    ((start fs edits).follow schedule).fileSystem = fs.writtenAll (edits.filterMap fs.intended?) := by
  rw [(settles_follow hagree schedule).fileSystem, done_of_isFinished hfinished,
    (underway_follow fs edits schedule).edits]

/-- It is what they come to one after another. -/
theorem fileSystem_editAll (hagree : fs.Agree edits) :
    (fs.editAll edits).1 = fs.writtenAll (edits.filterMap fs.intended?) := by
  have hfinished : ((start fs edits).follow (inTurn 0 edits.length)).IsFinished :=
    isFinished_follow fun i hi => count_inTurn (Nat.zero_le i) (by omega)
  have hturns := follow_inTurn fs [] edits []
  rw [← fileSystem_follow hagree hfinished, ← hturns]
  rfl

end Batch

end DocTree
