import Mathlib.Data.List.Basic
import Mathlib.Tactic.Common

/-! Trees with symbolic links: taking `..` off the text of a path, and walking the tree as a
kernel does. -/
namespace Foxhole.Walk

variable {α : Type}

inductive Piece (α : Type) where
  | here
  | up
  | name (a : α)
deriving DecidableEq

/-- What is at a place; a link that starts at the top of the machine has no pieces. -/
inductive Node (α : Type) where
  | directory
  | file
  | link (target : Option (List (Piece α)))
deriving DecidableEq

abbrev Tree (α : Type) := List α → Option (Node α)

/-- The place a text names when each `..` takes off the name before it. The first name of a place
stays. -/
def lexical : List α → List (Piece α) → Option (List α)
  | dir, [] => some dir
  | dir, .here :: rest => lexical dir rest
  | dir, .up :: rest => if dir.length ≤ 1 then none else lexical dir.dropLast rest
  | dir, .name a :: rest => lexical (dir ++ [a]) rest

/-- A walk up to the first link with something behind it. -/
def walkWith (tree : Tree α) (follow : List α → List (Piece α) → Option (List α)) :
    List α → List (Piece α) → Option (List α)
  | dir, [] => some dir
  | dir, .here :: rest => walkWith tree follow dir rest
  | dir, .up :: rest => if dir.length ≤ 1 then none else walkWith tree follow dir.dropLast rest
  | dir, .name a :: rest =>
    if rest.isEmpty then
      if (tree (dir ++ [a])).isSome then some (dir ++ [a]) else none
    else match tree (dir ++ [a]) with
      | some .directory => walkWith tree follow (dir ++ [a]) rest
      | some (.link (some target)) => follow dir (target ++ rest)
      | _ => none

/-- Where a walk ends that follows at most `n` links, each with something behind it. It fails where
nothing is, at a file with something behind it, and where it leaves the top directory. -/
def walk (tree : Tree α) : ℕ → List α → List (Piece α) → Option (List α)
  | 0 => walkWith tree fun _ _ => none
  | n + 1 => walkWith tree (walk tree n)

/-- Every name with something behind it is a directory, where the text has it. -/
def Straight (tree : Tree α) : List α → List (Piece α) → Prop
  | _, [] => True
  | dir, .here :: rest => Straight tree dir rest
  | dir, .up :: rest => Straight tree dir.dropLast rest
  | dir, .name a :: rest =>
    (rest ≠ [] → tree (dir ++ [a]) = some .directory) ∧ Straight tree (dir ++ [a]) rest

/-- No name with something behind it is a link, where the text has it. -/
def LinkFree (tree : Tree α) : List α → List (Piece α) → Prop
  | _, [] => True
  | dir, .here :: rest => LinkFree tree dir rest
  | dir, .up :: rest => LinkFree tree dir.dropLast rest
  | dir, .name a :: rest =>
    (rest ≠ [] → ∀ target, tree (dir ++ [a]) ≠ some (.link target)) ∧
      LinkFree tree (dir ++ [a]) rest

section
variable {tree : Tree α} {follow : List α → List (Piece α) → Option (List α)} {dir place : List α}
  {pieces : List (Piece α)} {n : ℕ}

/-- A straight walk ends where the text says. -/
theorem walkWith_straight (h : Straight tree dir pieces) (hl : lexical dir pieces = some place)
    (hplace : (tree place).isSome) : walkWith tree follow dir pieces = some place := by
  induction pieces generalizing dir with
  | nil => exact hl
  | cons piece rest ih =>
    cases piece with
    | here => exact ih h hl
    | up =>
      simp only [lexical, walkWith] at hl ⊢
      split at hl
      · cases hl
      · rename_i hlen
        rw [if_neg hlen]
        exact ih h hl
    | name a =>
      simp only [lexical, walkWith] at hl ⊢
      cases rest with
      | nil =>
        obtain rfl : dir ++ [a] = place := by simpa [lexical] using hl
        simp [hplace]
      | cons next rest =>
        rw [if_neg (by simp), h.1 (by simp)]
        exact ih h.2 hl

theorem walk_straight (h : Straight tree dir pieces) (hl : lexical dir pieces = some place)
    (hplace : (tree place).isSome) : walk tree n dir pieces = some place := by
  cases n <;> exact walkWith_straight h hl hplace

/-- A walk that meets no link on its way and succeeds is straight. -/
theorem straight_of_walkWith (h : LinkFree tree dir pieces)
    (hw : walkWith tree follow dir pieces = some place) : Straight tree dir pieces := by
  induction pieces generalizing dir with
  | nil => trivial
  | cons piece rest ih =>
    cases piece with
    | here => exact ih h hw
    | up =>
      simp only [walkWith] at hw
      split at hw
      · cases hw
      · exact ih h hw
    | name a =>
      cases rest with
      | nil => exact ⟨fun hne => absurd rfl hne, trivial⟩
      | cons next rest =>
        simp only [walkWith] at hw
        rw [if_neg (by simp)] at hw
        have hfree := h.1 (by simp)
        split at hw
        · rename_i hdir
          exact ⟨fun _ => hdir, ih h.2 hw⟩
        · rename_i target hlink
          exact absurd hlink (hfree _)
        · cases hw

theorem straight_of_walk (h : LinkFree tree dir pieces) (hw : walk tree n dir pieces = some place) :
    Straight tree dir pieces := by
  cases n <;> exact straight_of_walkWith h hw

/-- What is above something is a directory. -/
def Closed (tree : Tree α) : Prop :=
  ∀ dir a, dir ≠ [] → (tree (dir ++ [a])).isSome → tree dir = some .directory

theorem Closed.parent (h : Closed tree) (hdir : (tree dir).isSome) (hlen : ¬ dir.length ≤ 1) :
    (tree dir.dropLast).isSome := by
  have hne : dir ≠ [] := by
    rintro rfl
    exact hlen (by simp)
  have hlast := List.dropLast_append_getLast hne
  rw [h dir.dropLast (dir.getLast hne) (fun he => ?_) (by rwa [hlast])]
  · rfl
  · have := congrArg List.length he
    simp only [List.length_dropLast, List.length_nil] at this
    omega

/-- A walk within a closed tree ends at something. -/
theorem walkWith_isSome (hclosed : Closed tree) (hdir : (tree dir).isSome)
    (hfollow : ∀ dir pieces place, (tree dir).isSome → follow dir pieces = some place →
      (tree place).isSome)
    (hw : walkWith tree follow dir pieces = some place) : (tree place).isSome := by
  induction pieces generalizing dir with
  | nil => exact Option.some.inj hw ▸ hdir
  | cons piece rest ih =>
    cases piece with
    | here => exact ih hdir hw
    | up =>
      simp only [walkWith] at hw
      split at hw
      · cases hw
      · rename_i hlen
        exact ih (hclosed.parent hdir hlen) hw
    | name a =>
      simp only [walkWith] at hw
      split at hw
      · split at hw
        · rename_i hsome
          exact Option.some.inj hw ▸ hsome
        · cases hw
      · split at hw
        · rename_i hnode
          exact ih (by rw [hnode]; rfl) hw
        · exact hfollow _ _ _ hdir hw
        · cases hw

theorem walk_isSome (hclosed : Closed tree) (hdir : (tree dir).isSome)
    (hw : walk tree n dir pieces = some place) : (tree place).isSome := by
  induction n generalizing dir pieces place with
  | zero => exact walkWith_isSome hclosed hdir (by simp) hw
  | succ n ih => exact walkWith_isSome hclosed hdir (fun _ _ _ hd hf => ih hd hf) hw

end

end Foxhole.Walk
