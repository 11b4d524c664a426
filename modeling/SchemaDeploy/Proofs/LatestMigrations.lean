import Mathlib.Data.List.Nodup
import Mathlib.Data.Prod.Lex
import Mathlib.Data.String.Basic
import SchemaDeploy.Change.Verify

namespace SchemaDeploy.Release

variable {s t u : Script} {latest seen sources : List Script}

/-- Where a migration is kept. -/
def place (s : Script) : ℕ ×ₗ String :=
  toLex (s.objectType.rank, s.fullName)

theorem rank_injective : Function.Injective ObjectType.rank := by
  intro a b
  cases a <;> cases b <;> decide

theorem sameObject_iff : sameObject s t = true ↔ place s = place t := by
  simp only [sameObject, place, Bool.and_eq_true, beq_iff_eq, EmbeddingLike.apply_eq_iff_eq,
    Prod.mk.injEq, rank_injective.eq_iff]

theorem objectBefore_iff : objectBefore s t = true ↔ place s < place t := by
  simp only [objectBefore, place, Bool.or_eq_true, Bool.and_eq_true, beq_iff_eq, decide_eq_true_eq,
    Prod.Lex.toLex_lt_toLex, rank_injective.eq_iff]

theorem mem_insertLatest (h : u ∈ insertLatest s latest) : u = s ∨ u ∈ latest := by
  induction latest with
  | nil => exact .inl (List.mem_singleton.1 h)
  | cons t ts ih =>
      simp only [insertLatest] at h
      split at h
      · rcases List.mem_cons.1 h with h | h
        · split at h
          · exact .inl h
          · exact .inr (h ▸ List.mem_cons_self)
        · exact .inr (List.mem_cons_of_mem _ h)
      · split at h
        · exact List.mem_cons.1 h
        · rcases List.mem_cons.1 h with rfl | h
          · exact .inr List.mem_cons_self
          · exact (ih h).imp_right (List.mem_cons_of_mem _)

theorem pairwise_insertLatest (s : Script) (h : latest.Pairwise fun t u => place t < place u) :
    (insertLatest s latest).Pairwise fun t u => place t < place u := by
  induction latest with
  | nil => exact List.pairwise_singleton _ s
  | cons t ts ih =>
      obtain ⟨ht, hts⟩ := List.pairwise_cons.1 h
      simp only [insertLatest]
      split
      · next hsame =>
        refine List.pairwise_cons.2 ⟨fun u hu => ?_, hts⟩
        split
        · rw [sameObject_iff.1 hsame]
          exact ht u hu
        · exact ht u hu
      · next hsame =>
        split
        · next hbefore =>
          have hst := objectBefore_iff.1 hbefore
          refine List.pairwise_cons.2 ⟨fun u hu => ?_, h⟩
          rcases List.mem_cons.1 hu with rfl | hu
          · exact hst
          · exact lt_trans hst (ht u hu)
        · next hbefore =>
          have hts' : place t < place s := by
            rw [sameObject_iff] at hsame
            rw [objectBefore_iff] at hbefore
            exact lt_of_le_of_ne (not_lt.1 hbefore) (Ne.symm hsame)
          refine List.pairwise_cons.2 ⟨fun u hu => ?_, ih hts⟩
          rcases mem_insertLatest hu with rfl | hu
          · exact hts'
          · exact ht u hu

def Covers (t s : Script) : Prop :=
  place t = place s ∧ s.version.getD 0 ≤ t.version.getD 0

theorem exists_covers_insertLatest (h : u = s ∨ ∃ t ∈ latest, Covers t u) :
    ∃ t ∈ insertLatest s latest, Covers t u := by
  have hrefl : Covers s s := ⟨rfl, Nat.le_refl _⟩
  induction latest with
  | nil =>
      rcases h with rfl | ⟨t, ht, -⟩
      · exact ⟨u, List.mem_cons_self, hrefl⟩
      · cases ht
  | cons t ts ih =>
      simp only [insertLatest]
      split
      · next hsame =>
        have hplace := sameObject_iff.1 hsame
        let m := if t.version.getD 0 < s.version.getD 0 then s else t
        have hm : Covers m s ∧ Covers m t := by
          simp only [m, Covers]
          split
          · next hlt => exact ⟨⟨rfl, Nat.le_refl _⟩, hplace, Nat.le_of_lt hlt⟩
          · next hle => exact ⟨⟨hplace.symm, Nat.not_lt.1 hle⟩, rfl, Nat.le_refl _⟩
        rcases h with rfl | ⟨v, hv, hcovers⟩
        · exact ⟨m, List.mem_cons_self, hm.1⟩
        · rcases List.mem_cons.1 hv with rfl | hv
          · exact ⟨m, List.mem_cons_self, hm.2.1.trans hcovers.1, hcovers.2.trans hm.2.2⟩
          · exact ⟨v, List.mem_cons_of_mem _ hv, hcovers⟩
      · split
        · rcases h with rfl | ⟨v, hv, hcovers⟩
          · exact ⟨u, List.mem_cons_self, hrefl⟩
          · exact ⟨v, List.mem_cons_of_mem _ hv, hcovers⟩
        · have hlater (hlater : u = s ∨ ∃ v ∈ ts, Covers v u) :
              ∃ v ∈ t :: insertLatest s ts, Covers v u := by
            obtain ⟨v, hv, hcovers⟩ := ih hlater
            exact ⟨v, List.mem_cons_of_mem _ hv, hcovers⟩
          rcases h with rfl | ⟨v, hv, hcovers⟩
          · exact hlater (.inl rfl)
          · rcases List.mem_cons.1 hv with rfl | hv
            · exact ⟨v, List.mem_cons_self, hcovers⟩
            · exact hlater (.inr ⟨v, hv, hcovers⟩)

structure Keeps (latest seen : List Script) : Prop where
  ordered : latest.Pairwise fun s t => place s < place t
  mem : ∀ s ∈ latest, s ∈ seen
  covers : ∀ s ∈ seen, ∃ t ∈ latest, Covers t s

theorem keeps_nil : Keeps [] [] where
  ordered := .nil
  mem _ hs := absurd hs List.not_mem_nil
  covers _ hs := absurd hs List.not_mem_nil

theorem Keeps.insert (h : Keeps latest seen) (s : Script) :
    Keeps (insertLatest s latest) (s :: seen) := by
  constructor
  case ordered => exact pairwise_insertLatest s h.ordered
  case mem =>
    intro u hu
    exact List.mem_cons.2 ((mem_insertLatest hu).imp_right (h.mem u))
  case covers =>
    intro u hu
    exact exists_covers_insertLatest ((List.mem_cons.1 hu).imp_right (h.covers u))

theorem keeps_latestMigrations (sources : List Script) :
    Keeps (latestMigrations sources) (sources.filter Script.isMigration) := by
  have hfold (ss latest seen : List Script) (h : Keeps latest seen) :
      Keeps (ss.foldl (fun latest s => insertLatest s latest) latest) (ss.reverse ++ seen) := by
    induction ss generalizing latest seen with
    | nil => exact h
    | cons s ss ih =>
        rw [List.foldl_cons, List.reverse_cons, List.append_assoc]
        exact ih _ _ (h.insert s)
  have hall := hfold (sources.filter Script.isMigration) [] [] keeps_nil
  rw [List.append_nil] at hall
  exact ⟨hall.ordered, fun s hs => List.mem_reverse.1 (hall.mem s hs),
    fun s hs => hall.covers s (List.mem_reverse.2 hs)⟩

/-- A listed migration of which no listed migration of the same object has a higher version. -/
structure IsNewest (sources : List Script) (s : Script) : Prop where
  listed : s ∈ sources
  migration : s.isMigration = true
  highest : ∀ t ∈ sources, t.isMigration = true → t.objectType = s.objectType →
    t.fullName = s.fullName → t.version.getD 0 ≤ s.version.getD 0

theorem place_eq_iff : place s = place t ↔ s.objectType = t.objectType ∧ s.fullName = t.fullName := by
  simp only [← sameObject_iff, sameObject, Bool.and_eq_true, beq_iff_eq]

theorem id_of_isMigration (h : s.isMigration = true) :
    s.id = s.fullName ++ ":" ++ toString (s.version.getD 0) := by
  obtain ⟨m, hm⟩ := Option.isSome_iff_exists.1 h
  rw [Script.id, Script.version, hm]
  rfl

theorem mem_latestMigrations_iff (hids : (sources.map fun s => (s.objectType, s.id)).Nodup) :
    s ∈ latestMigrations sources ↔ IsNewest sources s := by
  have hkeeps := keeps_latestMigrations sources
  have hmem {t : Script} (ht : t ∈ latestMigrations sources) :=
    List.mem_filter.1 (hkeeps.mem t ht)
  constructor
  · intro hs
    refine ⟨(hmem hs).1, (hmem hs).2, fun t ht hm htype hname => ?_⟩
    obtain ⟨m, hlatest, hplace, hversion⟩ := hkeeps.covers t (List.mem_filter.2 ⟨ht, hm⟩)
    have hsame : place m = place s := hplace.trans (place_eq_iff.2 ⟨htype, hname⟩)
    have hplaces : ((latestMigrations sources).map place).Nodup :=
      List.pairwise_map.2 (hkeeps.ordered.imp ne_of_lt)
    exact List.inj_on_of_nodup_map hplaces hlatest hs hsame ▸ hversion
  · rintro ⟨hs, hm, hhighest⟩
    obtain ⟨t, ht, hplace, hversion⟩ := hkeeps.covers s (List.mem_filter.2 ⟨hs, hm⟩)
    obtain ⟨htype, hname⟩ := place_eq_iff.1 hplace
    have hle := hhighest t (hmem ht).1 (hmem ht).2 htype hname
    have hid : t.id = s.id := by
      rw [id_of_isMigration (hmem ht).2, id_of_isMigration hm, hname, Nat.le_antisymm hle hversion]
    exact List.inj_on_of_nodup_map hids (hmem ht).1 hs (Prod.ext htype hid) ▸ ht

end SchemaDeploy.Release
