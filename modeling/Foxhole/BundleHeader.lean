import Foxhole.BundleBuild
import Foxhole.BundleExtract

/-! The header that is written for a member of a transport is accepted as its header. -/
namespace Foxhole.Bundle
open Check Text Blocks

variable {members : List Member} {row : Member} {head : Text}

theorem length_octal {width value : ℕ} (hw : 0 < width) (hv : value < 8 ^ width) :
    (octal width value).length = width := by
  have hle := (Nat.length_toDigits_le_iff (n := value) (by decide : 1 < 8) hw).2 hv
  rw [octal, List.length_leftpad]
  omega

theorem octal_ascii {width value : ℕ} : ∀ c ∈ octal width value, c.toNat < 128 := by
  intro c hc
  rw [octal, List.leftpad, List.mem_append] at hc
  rcases hc with hc | hc
  · rw [List.eq_of_mem_replicate hc]
    decide
  · have hdigit := Nat.isDigit_of_mem_toDigits (by decide) (by decide) hc
    simp only [Char.isDigit, Bool.and_eq_true, decide_eq_true_eq] at hdigit
    have hle := UInt32.le_iff_toNat_le.1 hdigit.2
    have hval : c.toNat = c.val.toNat := rfl
    have hnine : ('9' : Char).val.toNat = 57 := rfl
    omega

/-- A header up to its sum. -/
def front (name : Text) (bytes : ℕ) : Text :=
  name ++ (nulls 34 ++ (("0000644".toList ++ [nul]) ++
    (("0000000".toList ++ nul :: "0000000".toList ++ [nul]) ++ ((octal 11 bytes ++ [nul]) ++
      ("00000000000".toList ++ [nul])))))

/-- A header after its sum. -/
def back : Text :=
  ['0'] ++ (nulls 100 ++ (("ustar".toList ++ nul :: "00".toList) ++
    (nulls 64 ++ (nulls 16 ++ nulls 167))))

def sumOf (t : Text) : ℕ := (t.map Char.toNat).sum

theorem sumOf_le {t : Text} (h : ∀ c ∈ t, c.toNat < 128) : sumOf t ≤ 127 * t.length := by
  induction t with
  | nil => simp [sumOf]
  | cons c t ih =>
    obtain ⟨hc, ht⟩ := List.forall_mem_cons.1 h
    have hsum : sumOf (c :: t) = c.toNat + sumOf t := rfl
    have := ih ht
    rw [hsum, List.length_cons]
    omega

theorem length_front {name : Text} {bytes : ℕ} (hname : name.length = 66) (hb : bytes < 8 ^ 11) :
    (front name bytes).length = 148 := by
  simp [front, hname, length_octal (by decide : 0 < 11) hb]

theorem length_back : back.length = 356 := by simp [back]

/-- The header that is written for a member. -/
theorem createHeader_eq {name : Text} {bytes : ℕ} (hname : name.length = 66) (hb : bytes < 8 ^ 11) :
    createHeader { name := name, size := bytes } = some (front name bytes ++
      (octal 6 (256 + (sumOf (front name bytes) + sumOf back)) ++ [nul, ' '] ++ back)) := by
  have hmode : itn (0o644 % 0o10000) 8 = some ("0000644".toList ++ [nul]) := rfl
  have hid : itn 0 8 = some ("0000000".toList ++ [nul]) := rfl
  have htime : itn 0 12 = some ("00000000000".toList ++ [nul]) := rfl
  have hsize : itn bytes 12 = some (octal 11 bytes ++ [nul]) := if_pos hb
  have hlong : stn name 100 = name ++ nulls 34 := by
    rw [stn, List.take_of_length_le (by omega), hname]
  have hempty : ∀ n, stn [] n = nulls n := by simp [stn]
  have hfront := length_front hname hb
  have hdigits := length_octal (by decide : 0 < 11) hb
  have h64 : nulls 64 = nulls 32 ++ nulls 32 := nulls_add 32 32
  have h16 : nulls 16 = nulls 8 ++ nulls 8 := nulls_add 8 8
  have h167 : nulls 167 = nulls 155 ++ nulls 12 := nulls_add 155 12
  have hbuf : stn ([stn name 100, "0000644".toList ++ [nul], "0000000".toList ++ [nul],
      "0000000".toList ++ [nul], octal 11 bytes ++ [nul], "00000000000".toList ++ [nul],
      "        ".toList, ['0'], stn [] 100, "ustar".toList ++ nul :: "00".toList,
        stn [] 32, stn [] 32,
      stn [] 8, stn [] 8, stn [] 155].flatten) 512 =
      front name bytes ++ ("        ".toList ++ back) := by
    generalize hparts : [stn name 100, _, _, _, _, _, _, _, _, _, _, _, _, _, _].flatten = parts
    have hlen : parts.length = 500 := by
      simp [← hparts, hlong, hempty, hname, hdigits]
    rw [stn, List.take_of_length_le (by omega), hlen, ← hparts, hlong, front, back, h64, h16, h167]
    simp [hempty]
  simp only [createHeader, hmode, hid, htime, hsize, Option.bind_eq_bind, Option.bind_some, hbuf]
  have htake : (front name bytes ++ ("        ".toList ++ back)).take 148 = front name bytes :=
    List.take_left' hfront
  have hdrop : (front name bytes ++ ("        ".toList ++ back)).drop 155 = ' ' :: back := by
    have hsplit : front name bytes ++ ("        ".toList ++ back) =
        (front name bytes ++ "       ".toList) ++ ' ' :: back := by simp
    rw [hsplit]
    exact List.drop_left' (by simp [hfront])
  have hdrop' : (front name bytes ++ ("        ".toList ++ back)).drop 156 = back := by
    rw [← List.append_assoc]
    exact List.drop_left' (by simp [hfront])
  have hsum : calcChksums (front name bytes ++ ("        ".toList ++ back)) =
      256 + (sumOf (front name bytes) + sumOf back) := by
    rw [calcChksums, htake, hdrop']
    rfl
  have h148 : 512 - 364 = 148 := rfl
  have h155 : 512 - 357 = 155 := rfl
  rw [hsum, h148, h155, htake, hdrop]
  simp

/-- The fields of a header one after the other. -/
theorem substr_nth (fields : List Text) (k : ℕ) (hk : k < fields.length) :
    substr fields.flatten ((fields.take k).map List.length).sum fields[k].length = fields[k] := by
  have hsplit : fields = fields.take k ++ fields[k] :: fields.drop (k + 1) := by
    rw [← List.drop_eq_getElem_cons hk, List.take_append_drop]
  have hflat : fields.flatten = (fields.take k).flatten ++
      (fields[k] ++ (fields.drop (k + 1)).flatten) := by
    conv_lhs => rw [hsplit]
    rw [List.flatten_append, List.flatten_cons]
  rw [hflat, substr, ← List.length_flatten, List.drop_left, List.take_left]

/-- What is summed of letters that do not touch the field of the sum. -/
theorem sum_outside {t : Text} {k : ℕ} (h : k + t.length ≤ 148 ∨ 156 ≤ k) :
    ((t.zipIdx k).map headerByte).sum = sumOf t := by
  induction t generalizing k with
  | nil => rfl
  | cons c t ih =>
    rw [List.length_cons] at h
    have hsum : sumOf (c :: t) = c.toNat + sumOf t := rfl
    have hout : headerByte (c, k) = c.toNat := if_neg (by omega)
    rw [List.zipIdx_cons, List.map_cons, List.sum_cons, ih (by omega), hsum, hout]

theorem headerSum_eq {t u v : Text} (ht : t.length = 148) (hu : u.length = 8) :
    headerSum (t ++ (u ++ v)) = 256 + (sumOf t + sumOf v) := by
  have hmiddle : ((u.zipIdx 148).map headerByte).sum = 256 := by
    have hall : ∀ x ∈ (u.zipIdx 148).map headerByte, x = 32 := by
      intro x hx
      obtain ⟨⟨c, i⟩, hmem, rfl⟩ := List.mem_map.1 hx
      obtain ⟨hlo, hhi, -⟩ := List.mem_zipIdx hmem
      exact if_pos ⟨hlo, by omega⟩
    rw [List.eq_replicate_of_mem hall, List.sum_replicate_nat, List.length_map,
      List.length_zipIdx, hu]
  rw [headerSum, List.zipIdx_append, List.zipIdx_append, List.map_append, List.map_append,
    List.sum_append, List.sum_append, Nat.zero_add, ht, hu, hmiddle, sum_outside (.inl (by omega)),
    sum_outside (.inr le_rfl)]
  omega

theorem nulls_ascii (n : ℕ) : ∀ c ∈ nulls n, c.toNat < 128 := by
  intro c hc
  rw [(eq_nulls_iff.1 rfl).2 c hc]
  decide

theorem back_ascii : ∀ c ∈ back, c.toNat < 128 := by
  have hflag : ∀ c ∈ ['0'], c.toNat < 128 := by decide
  have hmagic : ∀ c ∈ "ustar".toList ++ nul :: "00".toList, c.toNat < 128 := by decide
  refine List.forall_mem_append.2 ⟨hflag, List.forall_mem_append.2 ⟨nulls_ascii _, ?_⟩⟩
  refine List.forall_mem_append.2 ⟨hmagic, List.forall_mem_append.2 ⟨nulls_ascii _, ?_⟩⟩
  exact List.forall_mem_append.2 ⟨nulls_ascii _, nulls_ascii _⟩

theorem front_ascii {name : Text} (bytes : ℕ) (hname : ∀ c ∈ name, c.toNat < 128) :
    ∀ c ∈ front name bytes, c.toNat < 128 := by
  have hmode : ∀ c ∈ "0000644".toList ++ [nul], c.toNat < 128 := by decide
  have hids : ∀ c ∈ "0000000".toList ++ nul :: "0000000".toList ++ [nul], c.toNat < 128 := by decide
  have htime : ∀ c ∈ "00000000000".toList ++ [nul], c.toNat < 128 := by decide
  have hnul : ∀ c ∈ [nul], c.toNat < 128 := by decide
  have hsize : ∀ c ∈ octal 11 bytes ++ [nul], c.toNat < 128 :=
    List.forall_mem_append.2 ⟨octal_ascii, hnul⟩
  refine List.forall_mem_append.2 ⟨hname, List.forall_mem_append.2 ⟨nulls_ascii _, ?_⟩⟩
  refine List.forall_mem_append.2 ⟨hmode, List.forall_mem_append.2 ⟨hids, ?_⟩⟩
  exact List.forall_mem_append.2 ⟨hsize, htime⟩

/-- The header that is written for a member is accepted as its header. -/
theorem header_created {name : Text} (hname : name.length = 66) (hascii : ∀ c ∈ name, c.toNat < 128)
    (hrow : members.find? (·.member = name) = some row) (hb : row.bytes < 8 ^ 11)
    (hhead : createHeader { name := name, size := row.bytes } = some head) :
    header head members = .ok row ∧ head.length = 512 := by
  rw [createHeader_eq hname hb, Option.some.injEq] at hhead
  have hfront := length_front hname hb
  have hback := length_back
  have hsum : 256 + (sumOf (front name row.bytes) + sumOf back) < 8 ^ 6 := by
    have h1 := sumOf_le (front_ascii row.bytes hascii)
    have h2 := sumOf_le back_ascii
    rw [hfront] at h1
    rw [hback] at h2
    omega
  have hcheck :
      (octal 6 (256 + (sumOf (front name row.bytes) + sumOf back)) ++ [nul, ' ']).length = 8 := by
    simp [length_octal (by decide : 0 < 6) hsum]
  have hlen : head.length = 512 := by
    rw [← hhead, List.length_append, List.length_append, hfront, hcheck, hback]
  have htotal : headerSum head = 256 + (sumOf (front name row.bytes) + sumOf back) := by
    rw [← hhead]
    exact headerSum_eq hfront hcheck
  have hsize : (octal 11 row.bytes ++ [nul]).length = 12 := by
    simp [length_octal (by decide : 0 < 11) hb]
  have hfields : head = [name, nulls 34, "0000644".toList ++ [nul],
      "0000000".toList ++ nul :: "0000000".toList ++ [nul], octal 11 row.bytes ++ [nul],
      "00000000000".toList ++ [nul], octal 6 (headerSum head) ++ [nul, ' '], ['0'], nulls 100,
      "ustar".toList ++ nul :: "00".toList, nulls 64, nulls 16, nulls 167].flatten := by
    rw [htotal, ← hhead, front, back]
    simp only [List.append_assoc, List.flatten_cons, List.flatten_nil, List.append_nil]
  rw [← htotal] at hcheck
  generalize htotal' : headerSum head = sum at hfields hcheck
  have hnth := substr_nth [name, nulls 34, "0000644".toList ++ [nul],
      "0000000".toList ++ nul :: "0000000".toList ++ [nul], octal 11 row.bytes ++ [nul],
      "00000000000".toList ++ [nul], octal 6 sum ++ [nul, ' '], ['0'], nulls 100,
      "ustar".toList ++ nul :: "00".toList, nulls 64, nulls 16, nulls 167]
  rw [← hfields] at hnth
  have hs := length_octal (by decide : 0 < 11) hb
  have hc : (octal 6 sum).length = 6 := by simpa using hcheck
  have h0 : substr head 0 66 = name := by simpa [hname] using hnth 0 (by simp)
  have h66 : substr head 66 34 = nulls 34 := by simpa [hname] using hnth 1 (by simp)
  have h100 : substr head 100 8 = "0000644".toList ++ [nul] := by
    simpa [hname] using hnth 2 (by simp)
  have h108 : substr head 108 16 = "0000000".toList ++ nul :: "0000000".toList ++ [nul] := by
    simpa [hname] using hnth 3 (by simp)
  have h124 : substr head 124 12 = octal 11 row.bytes ++ [nul] := by
    simpa [hname, hs] using hnth 4 (by simp)
  have h136 : substr head 136 12 = "00000000000".toList ++ [nul] := by
    simpa [hname, hs] using hnth 5 (by simp)
  have h148 : substr head 148 8 = octal 6 sum ++ [nul, ' '] := by
    simpa [hname, hs, hc] using hnth 6 (by simp)
  have h156 : substr head 156 1 = ['0'] := by simpa [hname, hs, hc] using hnth 7 (by simp)
  have h157 : substr head 157 100 = nulls 100 := by simpa [hname, hs, hc] using hnth 8 (by simp)
  have h257 : substr head 257 8 = "ustar".toList ++ nul :: "00".toList := by
    simpa [hname, hs, hc] using hnth 9 (by simp)
  have h265 : substr head 265 64 = nulls 64 := by simpa [hname, hs, hc] using hnth 10 (by simp)
  have h329 : substr head 329 16 = nulls 16 := by simpa [hname, hs, hc] using hnth 11 (by simp)
  have h345 : substr head 345 167 = nulls 167 := by simpa [hname, hs, hc] using hnth 12 (by simp)
  refine ⟨?_, hlen⟩
  simp only [header, bind_eq_ok, require_eq_ok, pure_eq_ok]
  refine ⟨(), hlen, row, by rw [h0, hrow]; rfl, (),
    ⟨h66, h100, h108, h124, h136, .inl h156, ?_, h257,
    ?_, ?_, ?_⟩, (), by rw [htotal']; exact h148, rfl⟩
  · rw [h157]
    exact zeros_nulls 100
  · rw [h265]
    exact zeros_nulls 64
  · rw [h329]
    exact zeros_nulls 16
  · rw [h345]
    exact zeros_nulls 167

end Foxhole.Bundle
