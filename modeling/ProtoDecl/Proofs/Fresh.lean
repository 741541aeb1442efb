import Mathlib.Data.List.Nodup
import Mathlib.Data.List.Perm.Subperm
import Mathlib.Data.Nat.Find

/-!
# The first free name

Names that must not be taken are looked for in a row of candidates, one after the other.  If the
candidates differ from each other, one of them is free: there are only so many taken names, and after
as many steps each of them has been met (`exists_firstFree`).  So it does no harm to try only as many
candidates as there are taken names, and one more (`find?_firstFree`).
-/

namespace ProtoDecl

variable {taken : List String} {candidate : Nat → String} {n : Nat}

/-- Whether candidate `n` is the first that is not taken. -/
structure FirstFree (taken : List String) (candidate : Nat → String) (n : Nat) : Prop where
  free : candidate n ∉ taken
  clash : ∀ j < n, candidate j ∈ taken

theorem FirstFree.unique {m : Nat} (h : FirstFree taken candidate n)
    (h' : FirstFree taken candidate m) : n = m := by
  rcases Nat.lt_trichotomy n m with hlt | heq | hlt
  · exact absurd (h'.clash n hlt) h.free
  · exact heq
  · exact absurd (h.clash m hlt) h'.free

/-- The search ends: after as many clashes as there are taken names, all of them are used up. -/
theorem exists_firstFree (taken : List String) (hinj : Function.Injective candidate) :
    ∃ n ≤ taken.length, FirstFree taken candidate n := by
  have hfree : ∃ n, n ≤ taken.length ∧ candidate n ∉ taken := by
    by_contra hall
    push Not at hall
    have hnodup : ((List.range (taken.length + 1)).map candidate).Nodup :=
      List.nodup_range.map hinj
    have hsubset : (List.range (taken.length + 1)).map candidate ⊆ taken := by
      intro name hname
      obtain ⟨j, hj, rfl⟩ := List.mem_map.1 hname
      exact hall j (Nat.le_of_lt_succ (List.mem_range.1 hj))
    have hlength := (hnodup.subperm hsubset).length_le
    rw [List.length_map, List.length_range] at hlength
    omega
  obtain ⟨hle, hfirst⟩ := Nat.find_spec hfree
  refine ⟨Nat.find hfree, hle, hfirst, fun j hj => ?_⟩
  by_contra hj'
  exact Nat.find_min hfree hj ⟨by omega, hj'⟩

/-- A search that goes far enough finds the first free candidate. -/
theorem find?_firstFree {bound : Nat} (h : FirstFree taken candidate n) (hlt : n < bound) :
    ((List.range bound).map candidate).find? (fun name => !taken.contains name) =
      some (candidate n) := by
  rw [List.find?_map, Option.map_eq_some_iff]
  refine ⟨n, List.find?_range_eq_some.2 ⟨?_, List.mem_range.2 hlt, fun j hj => ?_⟩, rfl⟩
  · simpa using h.free
  · simpa using h.clash j hj

end ProtoDecl
