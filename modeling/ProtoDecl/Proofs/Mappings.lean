import Mathlib.Data.List.Infix
import Mathlib.Logic.Relation
import ProtoDecl.Settings.Basic

/-!
# The order of import mappings

The first mapping that fits a path is the one that counts, so the order of mappings matters where
two of them fit the same path.  Two sources that begin one path are comparable: one of them begins
the other.  Mappings whose sources are not (`ImportMapping.Apart`) never fit the same path, and may
change places.

* `mapped?_exchange` is the step: two such neighbours may be exchanged;
* `exchanges_of_perm`: where all mappings are apart, such steps lead to every other order of them;
* `mapped?_of_changed?`: there, the one mapping that fits decides, wherever in the list it is.

What is done to a path afterwards depends on the mappings only by their answer (`resolve_eq`), so
the same holds of whole paths (`resolve_order_free`).
-/

namespace ProtoDecl

namespace ImportMapping

variable {a b : ImportMapping} {path changed : List Char}

/-- Neither source begins the other. -/
def Apart (a b : ImportMapping) : Prop :=
  ¬ a.source.toList <+: b.source.toList ∧ ¬ b.source.toList <+: a.source.toList

instance (a b : ImportMapping) : Decidable (Apart a b) :=
  inferInstanceAs (Decidable (_ ∧ _))

theorem Apart.symm (h : Apart a b) : Apart b a :=
  And.symm h

theorem changed?_eq_some_iff :
    a.changed? path = some changed ↔
      ∃ rest, path = a.source.toList ++ rest ∧ changed = a.target.toList ++ rest := by
  unfold changed? Text.dropStart?
  split
  · rename_i hstart
    obtain ⟨rest, rfl⟩ := List.isPrefixOf_iff_prefix.1 hstart
    simp [eq_comm]
  · rename_i hstart
    refine ⟨by simp, ?_⟩
    rintro ⟨rest, rfl, -⟩
    exact absurd (List.isPrefixOf_iff_prefix.2 (List.prefix_append _ _)) hstart

/-- Of two mappings that are apart, one fits only where the other does not. -/
theorem Apart.changed?_eq_none (h : Apart a b) (ha : a.changed? path = some changed) :
    b.changed? path = none := by
  by_contra hsome
  obtain ⟨other, hb⟩ := Option.ne_none_iff_exists'.1 hsome
  obtain ⟨rest, hpath, -⟩ := changed?_eq_some_iff.1 ha
  obtain ⟨rest', hpath', -⟩ := changed?_eq_some_iff.1 hb
  have hcomparable : a.source.toList <+: b.source.toList ∨ b.source.toList <+: a.source.toList :=
    List.prefix_or_prefix_of_prefix ⟨rest, hpath.symm⟩ ⟨rest', hpath'.symm⟩
  exact hcomparable.elim h.1 h.2

end ImportMapping

namespace Settings

open ImportMapping (Apart)
open Relation (ReflTransGen)

/-- Two neighbours that are apart change places. -/
inductive Exchange : List ImportMapping → List ImportMapping → Prop
  | mk (front : List ImportMapping) {a b : ImportMapping} (back : List ImportMapping)
      (apart : Apart a b) : Exchange (front ++ a :: b :: back) (front ++ b :: a :: back)

variable {ms ns : List ImportMapping} {m : ImportMapping} {path changed : List Char}

theorem Exchange.cons (h : Exchange ms ns) : Exchange (m :: ms) (m :: ns) := by
  obtain ⟨front, back, apart⟩ := h
  exact .mk (m :: front) back apart

/-- At most one of the two fits, so it does not matter which is asked first. -/
theorem mapped?_exchange (h : Exchange ms ns) (s : Settings) (path : List Char) :
    { s with mappings := ms }.mapped? path = { s with mappings := ns }.mapped? path := by
  obtain @⟨front, a, b, back, apart⟩ := h
  simp only [mapped?, List.findSome?_append, List.findSome?_cons]
  cases ha : a.changed? path with
  | none => rfl
  | some changed => rw [apart.changed?_eq_none ha]

theorem mapped?_exchanges (h : ReflTransGen Exchange ms ns) (s : Settings) (path : List Char) :
    { s with mappings := ms }.mapped? path = { s with mappings := ns }.mapped? path := by
  induction h with
  | refl => rfl
  | tail _ hlast ih => exact ih.trans (mapped?_exchange hlast s path)

/-- Mappings that are all apart can be brought into any order by exchanging neighbours. -/
theorem exchanges_of_perm (hapart : ms.Pairwise Apart) (hperm : ms.Perm ns) :
    ReflTransGen Exchange ms ns := by
  induction hperm with
  | nil => exact .refl
  | cons m _ ih => exact (ih hapart.of_cons).lift (m :: ·) fun _ _ => Exchange.cons
  | swap a b back =>
    have hba : Apart b a := (List.pairwise_cons.1 hapart).1 a List.mem_cons_self
    exact .single (.mk [] back hba)
  | trans hperm _ ih ih' =>
    have hmiddle := hapart.perm hperm fun h => h.symm
    exact (ih hapart).trans (ih' hmiddle)

/-- Among mappings that are all apart, the one that fits gives the answer: it could as well be the
first. -/
theorem mapped?_of_changed? {s : Settings} (hapart : s.mappings.Pairwise Apart)
    (hm : m ∈ s.mappings) (hfits : m.changed? path = some changed) :
    s.mapped? path = some changed := by
  have hfirst := exchanges_of_perm hapart (List.perm_cons_erase hm)
  rw [mapped?_exchanges hfirst s path, mapped?, List.findSome?_cons, hfits]

/-- What a path becomes depends on the mappings only by what they make of it. -/
theorem resolve_eq {s : Settings} {path : String}
    (h : { s with mappings := ns }.mapped? path.toList = s.mapped? path.toList) :
    { s with mappings := ns }.resolve path = s.resolve path := by
  unfold resolve
  rw [h]
  rfl

/-- The order of independent mappings does not matter.  Where all of them are apart, they may stand
in any order, and whichever of them fits decides; and anywhere, two neighbours that are apart may
change places. -/
theorem resolve_order_free (s : Settings) (path : String) :
    (s.mappings.Pairwise Apart → ∀ ms, s.mappings.Perm ms →
      { s with mappings := ms }.resolve path = s.resolve path ∧
        ∀ m ∈ ms, ∀ changed, m.changed? path.toList = some changed →
          s.resolve path = String.ofList (s.strip changed)) ∧
    ∀ front a b back, s.mappings = front ++ a :: b :: back → Apart a b →
      { s with mappings := front ++ b :: a :: back }.resolve path = s.resolve path := by
  refine ⟨fun hapart ms hperm => ⟨?_, fun m hm changed hfits => ?_⟩, ?_⟩
  · exact resolve_eq (mapped?_exchanges (exchanges_of_perm hapart hperm) s path.toList).symm
  · have hmapped := mapped?_of_changed? hapart (hperm.mem_iff.2 hm) hfits
    rw [resolve, hmapped]
  · intro front a b back hmappings hab
    have hexchange : Exchange s.mappings (front ++ b :: a :: back) := hmappings ▸ .mk front back hab
    exact resolve_eq (mapped?_exchange hexchange s path.toList).symm

/-- Two sources begin alike, but neither begins the other.  The last mapping fits from the first
place too, and the extension is taken off behind it.  Where one source does begin the other, the
mapping between them may still change places with its neighbour. -/
theorem resolve_order_free_reversed :
    let mappings : List ImportMapping := [⟨"a/b/", "x/"⟩, ⟨"d/", "z/"⟩, ⟨"a/c/", "y/"⟩]
    let s : Settings := { stripExtension := true, importRoot := some "./", mappings }
    let path := "a/c/e.proto"
    s.mappings.Pairwise Apart ∧ s.mappings.Perm s.mappings.reverse ∧
      { s with mappings := s.mappings.reverse }.resolve path = s.resolve path ∧
      s.resolve path = "y/e" ∧
    let nested : List ImportMapping := [⟨"a/", "w/"⟩, ⟨"d/", "z/"⟩, ⟨"a/c/", "y/"⟩]
    let exchanged : List ImportMapping := [⟨"a/", "w/"⟩, ⟨"a/c/", "y/"⟩, ⟨"d/", "z/"⟩]
    ¬ nested.Pairwise Apart ∧ Apart ⟨"d/", "z/"⟩ ⟨"a/c/", "y/"⟩ ∧
      { s with mappings := exchanged }.resolve path = { s with mappings := nested }.resolve path := by
  intro mappings s path
  have hapart : s.mappings.Pairwise Apart := by decide +kernel
  have hperm : s.mappings.Perm s.mappings.reverse := s.mappings.reverse_perm.symm
  have hfree := (resolve_order_free s path).1 hapart _ hperm
  have hdecides := hfree.2 ⟨"a/c/", "y/"⟩ (by decide +kernel) "y/e.proto".toList (by decide +kernel)
  refine ⟨hapart, hperm, hfree.1, hdecides.trans (by decide +kernel), ?_⟩
  intro nested exchanged
  have hneighbours : Apart ⟨"d/", "z/"⟩ ⟨"a/c/", "y/"⟩ := by decide +kernel
  refine ⟨by decide +kernel, hneighbours, ?_⟩
  exact (resolve_order_free { s with mappings := nested } path).2 [⟨"a/", "w/"⟩] _ _ [] rfl
    hneighbours

end Settings

end ProtoDecl
