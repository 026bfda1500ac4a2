import Mathlib.Logic.Function.Basic
import Mathlib.Data.List.Nodup
import Mathlib.Data.List.Perm.Subperm

/-!
Owners that share pages until they write. An owner maps at most one page, for
writing or only for reading; pages that nobody maps may be on a free list. What each
owner is entitled to read is kept beside the memory. The rules below are the moves that
keep every owner reading what it is entitled to: writing through a mapping that may
write, taking a page from the free list, turning the only mapping of a page writable,
and sharing.
-/

namespace ViperDos.CopyOnWrite

open Function

variable {Owner Page Cell Value : Type}

structure Mapping (Page : Type) where
  page : Page
  writable : Bool

structure Isolated (entry : Owner → Option (Mapping Page)) (frames : Page → Cell → Value)
    (free : List Page) (expected : Owner → Cell → Option Value) : Prop where
  sole : ∀ owner other mine theirs, entry owner = some mine → entry other = some theirs →
    mine.writable = true → theirs.page = mine.page → other = owner
  apart : ∀ owner mine, entry owner = some mine → mine.page ∉ free
  nodup : free.Nodup
  reads : ∀ owner cell value, expected owner cell = some value →
    ∃ mine, entry owner = some mine ∧ frames mine.page cell = value

variable {entry : Owner → Option (Mapping Page)} {frames : Page → Cell → Value}
  {free : List Page} {expected : Owner → Cell → Option Value}

variable {rest : List Page} {owner other : Owner} {next found mine : Mapping Page}
  {after : Owner → Option (Mapping Page)} {entitled : Owner → Cell → Option Value}

theorem isolated_pool (isolated : Isolated entry frames free expected) (fewer : rest.Subperm free) :
    Isolated entry frames rest expected :=
  { isolated with
    apart := fun owner mine found member => isolated.apart owner mine found (fewer.subset member)
    nodup := fewer.elim fun _ ⟨perm, part⟩ => perm.nodup_iff.mp (part.nodup isolated.nodup) }

/-- What is written to a free page is seen by nobody. -/
theorem isolated_scribble [DecidableEq Page] {page : Page}
    (isolated : Isolated entry frames free expected) (member : page ∈ free)
    (frame : Cell → Value) : Isolated entry (update frames page frame) free expected := by
  refine { isolated with reads := ?_ }
  intro owner cell value entitled
  rcases isolated.reads owner cell value entitled with ⟨mine, found, holds⟩
  have different : mine.page ≠ page := by
    rintro rfl
    exact isolated.apart owner mine found member
  exact ⟨mine, found, by rwa [update_of_ne different]⟩

theorem isolated_write [DecidableEq Owner] [DecidableEq Page] [DecidableEq Cell]
    (isolated : Isolated entry frames free expected) {owner : Owner} {mine : Mapping Page}
    (found : entry owner = some mine) (writable : mine.writable = true) (cell : Cell)
    (value : Value) :
    Isolated entry
      (update frames mine.page (update (frames mine.page) cell value)) free
      (update expected owner (update (expected owner) cell (some value))) := by
  refine { isolated with reads := ?_ }
  intro other at_ wanted entitled
  by_cases same : other = owner
  · subst other
    refine ⟨mine, found, ?_⟩
    rw [update_self] at entitled ⊢
    by_cases here : at_ = cell
    · subst at_
      rw [update_self] at entitled ⊢
      exact Option.some.inj entitled
    rw [update_of_ne here] at entitled ⊢
    rcases isolated.reads owner at_ wanted entitled with ⟨again, same, holds⟩
    rw [found] at same
    cases same
    exact holds
  · rw [update_of_ne same] at entitled
    rcases isolated.reads other at_ wanted entitled with ⟨theirs, there, holds⟩
    have different : theirs.page ≠ mine.page := fun equal =>
      same (isolated.sole owner other mine theirs found there writable equal)
    exact ⟨theirs, there, by rwa [update_of_ne different]⟩

section Remap

variable [DecidableEq Owner]

theorem update_origin (lookup : update entry owner (some next) other = some found) :
    (other = owner ∧ found = next) ∨ (other ≠ owner ∧ entry other = some found) := by
  by_cases same : other = owner
  · subst other
    rw [update_self] at lookup
    exact .inl ⟨rfl, (Option.some.inj lookup).symm⟩
  · rw [update_of_ne same] at lookup
    exact .inr ⟨same, lookup⟩

theorem isolated_take [DecidableEq Page] {page : Page}
    (isolated : Isolated entry frames (page :: free) expected) {frame : Cell → Value}
    (holds : ∀ cell value, expected owner cell = some value → frame cell = value)
    (writable : Bool) :
    Isolated (update entry owner (some ⟨page, writable⟩))
      (update frames page frame) free expected := by
  have fresh : ∀ other theirs, entry other = some theirs → theirs.page ≠ page := by
    rintro other theirs there rfl
    exact isolated.apart other theirs there (.head _)
  constructor
  · intro left right mine theirs here there canWrite same
    rcases update_origin here with ⟨rfl, rfl⟩ | ⟨_, leftOld⟩
    · rcases update_origin there with ⟨rfl, _⟩ | ⟨_, rightOld⟩
      · rfl
      · exact absurd same (fresh right theirs rightOld)
    · rcases update_origin there with ⟨rfl, rfl⟩ | ⟨_, rightOld⟩
      · exact absurd same.symm (fresh left mine leftOld)
      · exact isolated.sole left right mine theirs leftOld rightOld canWrite same
  · intro other mine found
    rcases update_origin found with ⟨_, rfl⟩ | ⟨_, old⟩
    · exact (List.nodup_cons.mp isolated.nodup).1
    · exact fun member => isolated.apart other mine old (.tail _ member)
  · exact (List.nodup_cons.mp isolated.nodup).2
  intro other cell value entitled
  by_cases same : other = owner
  · subst other
    refine ⟨⟨page, writable⟩, update_self .., ?_⟩
    rw [update_self]
    exact holds cell value entitled
  · rcases isolated.reads other cell value entitled with ⟨theirs, there, reads⟩
    refine ⟨theirs, by rwa [update_of_ne same], ?_⟩
    rwa [update_of_ne (fresh other theirs there)]

theorem isolated_promote (isolated : Isolated entry frames free expected)
    (found : entry owner = some mine)
    (only : ∀ other theirs, entry other = some theirs → theirs.page = mine.page → other = owner)
    (writable : Bool) :
    Isolated (update entry owner (some ⟨mine.page, writable⟩)) frames free expected := by
  constructor
  · intro left right first second here there canWrite same
    rcases update_origin here with ⟨rfl, rfl⟩ | ⟨_, leftOld⟩
    · rcases update_origin there with ⟨rfl, _⟩ | ⟨_, rightOld⟩
      · rfl
      · exact only right second rightOld same
    · rcases update_origin there with ⟨rfl, rfl⟩ | ⟨_, rightOld⟩
      · exact (only left first leftOld same.symm).symm
      · exact isolated.sole left right first second leftOld rightOld canWrite same
  · intro other next lookup
    rcases update_origin lookup with ⟨_, rfl⟩ | ⟨_, old⟩
    · exact isolated.apart owner mine found
    · exact isolated.apart other next old
  · exact isolated.nodup
  intro other cell value entitled
  rcases isolated.reads other cell value entitled with ⟨theirs, there, reads⟩
  by_cases same : other = owner
  · subst other
    rw [found] at there
    cases there
    exact ⟨⟨mine.page, writable⟩, update_self .., reads⟩
  · exact ⟨theirs, by rwa [update_of_ne same], reads⟩

end Remap

/-- Every owner takes its page over from an earlier one. A page that is taken over by
more than one is not writable afterwards. -/
theorem isolated_share (isolated : Isolated entry frames free expected) (origin : Owner → Owner)
    (inherited : ∀ owner mine, after owner = some mine →
      ∃ theirs, entry (origin owner) = some theirs ∧ theirs.page = mine.page ∧
        (mine.writable = true → theirs.writable = true ∧
          ∀ other, origin other = origin owner → other = owner))
    (reads : ∀ owner cell value, entitled owner cell = some value →
      ∃ mine, after owner = some mine ∧ frames mine.page cell = value) :
    Isolated after frames free entitled where
  sole := by
    intro owner other mine theirs here there canWrite same
    rcases inherited owner mine here with ⟨source, sourceFound, sourcePage, keeps⟩
    rcases inherited other theirs there with ⟨second, secondFound, secondPage, _⟩
    rcases keeps canWrite with ⟨sourceWrites, only⟩
    refine only other (isolated.sole _ _ source second sourceFound secondFound sourceWrites ?_)
    rw [secondPage, same, sourcePage]
  apart := by
    intro owner mine here
    rcases inherited owner mine here with ⟨source, sourceFound, sourcePage, _⟩
    rw [← sourcePage]
    exact isolated.apart _ source sourceFound
  nodup := isolated.nodup
  reads := reads

end ViperDos.CopyOnWrite
