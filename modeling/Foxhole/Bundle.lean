import Foxhole.Address
import Foxhole.Lib.Blocks
import Foxhole.Lib.Check
import Mathlib.Data.List.Sort

/-! What the producer and the reader of a bundle transport share: the lines of a manifest, JSON
values, numbers in octal. -/
namespace Foxhole.Bundle
open Check Text Address

/-- The null byte. -/
def nul : Char := Char.ofNat 0

def nulls (count : ℕ) : Text := List.replicate count nul

@[simp] theorem length_nulls (n : ℕ) : (nulls n).length = n := List.length_replicate

theorem nulls_add (m n : ℕ) : nulls (m + n) = nulls m ++ nulls n := List.replicate_add ..

theorem eq_nulls_iff {t : Text} {n : ℕ} : t = nulls n ↔ t.length = n ∧ ∀ c ∈ t, c = nul :=
  List.eq_replicate_iff

attribute [irreducible] nulls

/-- `[A-Za-z0-9][A-Za-z0-9_.-]{0,159}` -/
def nameShape : Regex Char :=
  .seq (.cls isAlnum) (.upTo 159 (.cls fun c => isAlnum c || c ∈ ['_', '.', '-']))

/-- `[a-f0-9]{64}` -/
def hashShape : Regex Char := hexOf 64

/-- A line of a manifest: the digest, two blanks, the name. -/
structure Entry where
  name : Text
  sha256 : Text
deriving DecidableEq

/-- What the expression for a line asks of its two groups. -/
def Entry.Shaped (entry : Entry) : Prop :=
  hashShape.accepts entry.sha256 = true ∧ nameShape.accepts entry.name = true

instance (entry : Entry) : Decidable entry.Shaped := inferInstanceAs (Decidable (_ ∧ _))

def Entry.line (entry : Entry) : Text := entry.sha256 ++ [' ', ' '] ++ entry.name

/-- `([a-f0-9]{64})  ([A-Za-z0-9][A-Za-z0-9_.-]{0,159})`, the whole line. -/
def matchLine (line : Text) : Option Entry :=
  let entry := ⟨line.drop 66, line.take 64⟩
  if entry.line = line ∧ entry.Shaped then some entry else none

theorem length_of_hash {value : Text} (h : hashShape.accepts value = true) : value.length = 64 :=
  (Regex.accepts_rep_cls.1 h).1

theorem matchLine_eq_some {line : Text} {entry : Entry} :
    matchLine line = some entry ↔ line = entry.line ∧ entry.Shaped := by
  simp only [matchLine, Option.ite_none_right_eq_some, Option.some.injEq]
  constructor
  · rintro ⟨⟨hline, hshaped⟩, rfl⟩
    exact ⟨hline.symm, hshaped⟩
  · rintro ⟨rfl, hshaped⟩
    have hlen := length_of_hash hshaped.1
    have hentry : (⟨entry.line.drop 66, entry.line.take 64⟩ : Entry) = entry := by
      have hdrop : entry.line.drop 66 = entry.name := by
        rw [Entry.line, List.drop_left' (by simp [hlen])]
      have htake : entry.line.take 64 = entry.sha256 := by
        rw [Entry.line, List.append_assoc, List.take_left' hlen]
      rw [hdrop, htake]
    rw [hentry]
    exact ⟨⟨rfl, hshaped⟩, rfl⟩

/-- The parts of a JSON document. There are no fractions in these ones. -/
inductive Json where
  | null
  | bool (b : Bool)
  | int (n : ℤ)
  | string (t : Text)
  | array (items : List Json)
  | object (members : List (Text × Json))

namespace Json

def int? : Json → Option ℤ
  | int n => some n
  | _ => none

def string? : Json → Option Text
  | string t => some t
  | _ => none

def members? : Json → Option (List (Text × Json))
  | object members => some members
  | _ => none

/-- `value[key]`, null when there is no such member or `value` is no object. -/
def get (value : Json) (key : Text) : Json :=
  ((value.members?.getD []).lookup key).getD null

end Json

/-- `value` in octal digits, with zeros up to the width. -/
def octal (width value : ℕ) : Text := (Nat.toDigits 8 value).leftpad width '0'

end Foxhole.Bundle
