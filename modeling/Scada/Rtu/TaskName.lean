import Mathlib.Data.List.TakeWhile
import Mathlib.Data.Nat.Digits.Lemmas
import Mathlib.Logic.Function.Basic
import Scada.Status

namespace Scada.TaskName

-- rtai_nam2num.h, by which sendToHistorian names its task: six characters of a
-- name as the digits, in base 39, of an `unsigned long`.
def digit (c : Char) : Nat :=
  if 'a' ≤ c ∧ c ≤ 'z' then c.toNat+11 - 'a'.toNat
  else if 'A' ≤ c ∧ c ≤ 'Z' then c.toNat+11 - 'A'.toNat
  else if '0' ≤ c ∧ c ≤ '9' then c.toNat+1 - '0'.toNat
  else if c = '_' then 37 else 38

def letter (c : Word) : Char :=
  if c < 37 then if 10 < c then Char.ofNat (c+65-11).toNat else Char.ofNat (c+48-1).toNat
  else if c = 37 then '_' else '$'

-- `i` and `retval` after the loop, of which so many rounds are left.
def nam2numLoop {long : Nat} : Nat → List Char → Nat → BitVec long → Nat × BitVec long
  | 0,_,i,retval => (i,retval)
  | _+1,[],i,retval => (i,retval)
  | left+1,c::name,i,retval =>
    if c = '\x00' then (i,retval) else nam2numLoop left name (i+1) (retval*39+BitVec.ofNat long (digit c))

def nam2num (abi : Abi) (name : List Char) : BitVec abi.long :=
  let (i,retval) := nam2numLoop 6 name 0 0
  if 0 < i then retval else 0xFFFFFFFF

-- The buffer, and the place after `i`: q and c are ints, and q*39 may wrap.
def num2namLoop {long : Nat} : Nat → BitVec long → (Nat → Char) → Nat × (Nat → Char)
  | 0,_,name => (0,name)
  | i+1,num,name =>
    if num = 0 then (i+1,name)
    else
      let q : Word := (num/39).setWidth 32
      let c : Word := (num-(q*39).signExtend long).setWidth 32
      num2namLoop i (q.signExtend long) (Function.update name i (letter c))

def moveDown : Nat → Nat → Nat → (Nat → Char) → Nat × (Nat → Char)
  | 0,k,_,name => (k,name)
  | left+1,k,i,name => moveDown left (k+1) (i+1) (Function.update name k (name i))

def num2nam {long : Nat} (num : BitVec long) (name : Nat → Char) : Nat → Char :=
  if num = 0xFFFFFFFF then Function.update name 0 '\x00'
  else
    let (i,name) := num2namLoop 6 num name
    let (k,name) := moveDown (6-i) 0 i name
    Function.update name k '\x00'

def text (name : Nat → Char) : List Char := ((List.range 7).map name).takeWhile (· ≠ '\x00')

def seen (name : List Char) : List Char := (name.takeWhile (· ≠ '\x00')).take 6

def plain (c : Char) : Char := if c.isAlphanum then c.toUpper else if c = '_' then '_' else '$'

structure Coded (c : Char) : Prop where
  positive : 0 < digit c
  bounded : digit c < 39
  decoded : letter (BitVec.ofNat 32 (digit c)) = plain c
  again : digit (plain c) = digit c
  kept : plain c ≠ '\x00'

theorem coded_iff (c : Char) : 0 < digit c ∧ digit c < 39 ∧ letter (BitVec.ofNat 32 (digit c)) = plain c ∧
    digit (plain c) = digit c ∧ plain c ≠ '\x00' ↔ Coded c :=
  ⟨fun ⟨positive,bounded,decoded,again,kept⟩ => ⟨positive,bounded,decoded,again,kept⟩,
    fun own => ⟨own.positive,own.bounded,own.decoded,own.again,own.kept⟩⟩

instance (c : Char) : Decidable (Coded c) := decidable_of_iff _ (coded_iff c)

theorem ascii_coded : ∀ n : Fin 128, Coded (Char.ofNat n.val) := by decide +kernel

theorem coded (c : Char) : Coded c := by
  by_cases ascii : c.toNat < 128
  · have own := ascii_coded ⟨c.toNat,ascii⟩
    rwa [Char.ofNat_toNat] at own
  · have above : ∀ d : Char, d.toNat < 128 → ¬ c ≤ d := fun d small below => ascii (Nat.lt_of_le_of_lt below small)
    have bar : c ≠ '_' := fun same => ascii (same ▸ by decide)
    have last : digit c = 38 := by
      simp only [digit,above 'z' (by decide),above 'Z' (by decide),above '9' (by decide),and_false,if_false,if_neg bar]
    have other : plain c = '$' := by
      have word : c.isAlphanum = false := by
        apply Bool.eq_false_iff.mpr
        intro some
        rcases (Bool.or_eq_true _ _).mp some with letter | number
        · rcases (Bool.or_eq_true _ _).mp letter with upper | lower
          · exact above 'Z' (by decide) (of_decide_eq_true upper).2
          · exact above 'z' (by decide) (of_decide_eq_true ((Bool.and_eq_true _ _).mp lower).2)
        · exact above '9' (by decide) (of_decide_eq_true ((Bool.and_eq_true _ _).mp number).2)
      rw [plain,word,if_neg Bool.false_ne_true,if_neg bar]
    rw [← coded_iff,last,other]
    decide

def digits (name : List Char) : List Nat := ((seen name).map digit).reverse

theorem digits_bounds (name : List Char) : ∀ d ∈ digits name, 0 < d ∧ d < 39 := by
  intro d member
  obtain ⟨c,-,rfl⟩ := List.mem_map.mp (List.mem_reverse.mp member)
  exact ⟨(coded c).positive,(coded c).bounded⟩

theorem digits_length (name : List Char) : (digits name).length = (seen name).length := by simp [digits]

theorem seen_length (name : List Char) : (seen name).length ≤ 6 := List.length_take_le _ _

def number (name : List Char) : Nat := Nat.ofDigits 39 (digits name)

theorem number_lt (name : List Char) : number name < 39^6 := by
  have below := Nat.ofDigits_lt_base_pow_length (by decide : 1 < 39) fun d member => (digits_bounds name d member).2
  have short : (digits name).length ≤ 6 := digits_length name ▸ seen_length name
  exact below.trans_le (Nat.pow_le_pow_right (by decide) short)

theorem nam2numLoop_eq {long : Nat} (left : Nat) (name : List Char) (i v : Nat) :
    nam2numLoop left name i (BitVec.ofNat long v) =
      (i+((name.takeWhile (· ≠ '\x00')).take left).length,
        BitVec.ofNat long ((((name.takeWhile (· ≠ '\x00')).take left).map digit).foldl (fun v d => d+39*v) v)) := by
  induction left generalizing name i v with
  | zero => rfl
  | succ left previous =>
    cases name with
    | nil => rfl
    | cons c name =>
      by_cases ends : c = '\x00'
      · simp [nam2numLoop,ends]
      · have next : BitVec.ofNat long v*39+BitVec.ofNat long (digit c) = BitVec.ofNat long (digit c+39*v) := by
          rw [BitVec.ofNat_add,BitVec.ofNat_mul,BitVec.add_comm,BitVec.mul_comm]
          rfl
        rw [nam2numLoop,if_neg ends,next,previous,List.takeWhile_cons_of_pos (by simpa using ends),List.take_succ_cons]
        simp only [List.length_cons,List.map_cons,List.foldl_cons]
        rw [Nat.add_assoc,Nat.add_comm 1]

theorem nam2num_eq (abi : Abi) (name : List Char) :
    nam2num abi name = if seen name = [] then 0xFFFFFFFF else BitVec.ofNat abi.long (number name) := by
  have loop := @nam2numLoop_eq abi.long 6 name 0 0
  have value : ((seen name).map digit).foldl (fun v d => d+39*v) 0 = number name := by
    rw [number,digits,Nat.ofDigits_eq_foldr,List.foldr_reverse]
    rfl
  rw [← seen,value,Nat.zero_add] at loop
  have start : nam2numLoop 6 name 0 (0 : BitVec abi.long) = ((seen name).length,BitVec.ofNat abi.long (number name)) := loop
  simp only [nam2num,start,List.length_pos_iff,ne_eq,ite_not]

theorem setWidth_signExtend {long : Nat} (wide : 32 ≤ long) (x : Word) : (x.signExtend long).setWidth 32 = x := by
  ext i bound
  have inside : i < long := by omega
  simp [BitVec.getElem_signExtend,inside,bound]

theorem round_eq {long n : Nat} (wide : 32 ≤ long) (small : n < 2^32) :
    ((BitVec.ofNat long n/39).setWidth 32 : Word).signExtend long = BitVec.ofNat long (n/39) ∧
      (BitVec.ofNat long n-((BitVec.ofNat long n/39).setWidth 32*39 : Word).signExtend long).setWidth 32 =
        BitVec.ofNat 32 (n % 39) := by
  have room : 2^32 ≤ 2^long := Nat.pow_le_pow_right (by decide) wide
  have quotient : (BitVec.ofNat long n/39).setWidth 32 = BitVec.ofNat 32 (n/39) := by
    apply BitVec.eq_of_toNat_eq
    have divisor : (39 : BitVec long).toNat = 39 := Nat.mod_eq_of_lt (by omega : 39 < 2^long)
    rw [BitVec.toNat_setWidth,BitVec.toNat_udiv,divisor,BitVec.toNat_ofNat,BitVec.toNat_ofNat,
      Nat.mod_eq_of_lt (by omega : n < 2^long)]
  rw [quotient]
  constructor
  · have positive : (BitVec.ofNat 32 (n/39)).msb = false := by
      rw [BitVec.msb_eq_decide,BitVec.toNat_ofNat,decide_eq_false_iff_not]
      omega
    rw [BitVec.signExtend_eq_setWidth_of_msb_false positive,BitVec.setWidth_ofNat_of_le_of_lt wide (by omega)]
  · rw [BitVec.sub_eq_add_neg,BitVec.setWidth_add _ _ wide,BitVec.setWidth_neg_of_le wide,
      setWidth_signExtend wide,BitVec.setWidth_ofNat_of_le wide,← BitVec.sub_eq_add_neg]
    have split : BitVec.ofNat 32 n = BitVec.ofNat 32 (n % 39)+BitVec.ofNat 32 (n/39)*39 := by
      rw [BitVec.ofNat_eq_ofNat,BitVec.ofNat_mul_ofNat,BitVec.ofNat_add_ofNat,Nat.mod_add_div']
    rw [split,BitVec.add_sub_cancel]

theorem num2namLoop_eq {long : Nat} (wide : 32 ≤ long) (digits : List Nat) (bounds : ∀ d ∈ digits, 0 < d ∧ d < 39) {i : Nat}
    (room : digits.length ≤ i) (small : Nat.ofDigits 39 digits < 2^32) (name : Nat → Char) :
    ∃ name', num2namLoop i (BitVec.ofNat long (Nat.ofDigits 39 digits)) name = (i-digits.length,name') ∧
      (List.range' (i-digits.length) digits.length).map name' = (digits.map fun d => letter (BitVec.ofNat 32 d)).reverse ∧
      ∀ j, i ≤ j → name' j = name j := by
  induction digits generalizing i name with
  | nil =>
    refine ⟨name,?_,rfl,fun _ _ => rfl⟩
    cases i with
    | zero => rfl
    | succ i => rw [num2namLoop,if_pos]; rfl; rfl
  | cons d digits previous =>
    cases i with
    | zero => exact absurd room (Nat.not_succ_le_zero _)
    | succ i =>
      simp only [List.forall_mem_cons] at bounds
      rw [List.length_cons] at room
      rw [Nat.ofDigits_cons] at small ⊢
      have higher : (d+39*Nat.ofDigits 39 digits)/39 = Nat.ofDigits 39 digits := by omega
      have lowest : (d+39*Nat.ofDigits 39 digits) % 39 = d := by omega
      obtain ⟨quotient,rest⟩ := round_eq wide small
      rw [higher] at quotient
      rw [lowest] at rest
      obtain ⟨name',ran,written,above⟩ := previous bounds.2 (Nat.le_of_succ_le_succ room) (by omega)
        (Function.update name i (letter (BitVec.ofNat 32 d)))
      refine ⟨name',?_,?_,?_⟩
      · have more : BitVec.ofNat long (d+39*Nat.ofDigits 39 digits) ≠ 0 := by
          intro none
          have size := congrArg BitVec.toNat none
          rw [BitVec.toNat_ofNat,Nat.mod_eq_of_lt (small.trans_le (Nat.pow_le_pow_right (by decide) wide))] at size
          exact absurd size (by show d+39*Nat.ofDigits 39 digits ≠ 0; omega)
        rw [num2namLoop,if_neg more]
        simp only [quotient,rest,ran,List.length_cons,Nat.add_sub_add_right]
      · have last : name' i = letter (BitVec.ofNat 32 d) := by rw [above i le_rfl,Function.update_self]
        rw [List.length_cons,List.range'_1_concat,Nat.add_sub_add_right,Nat.sub_add_cancel (Nat.le_of_succ_le_succ room),
          List.map_append,written,List.map_singleton,last,List.map_cons,List.reverse_cons]
      · intro j beyond
        rw [above j (by omega),Function.update_of_ne (by omega)]

theorem moveDown_eq (left : Nat) {k i : Nat} (order : k ≤ i) (name : Nat → Char) :
    ∃ name', moveDown left k i name = (k+left,name') ∧
      (List.range' k left).map name' = (List.range' i left).map name ∧ ∀ j, j < k → name' j = name j := by
  induction left generalizing k i name with
  | zero => exact ⟨name,rfl,rfl,fun _ _ => rfl⟩
  | succ left previous =>
    obtain ⟨name',moved,copied,before⟩ := previous (Nat.succ_le_succ order) (Function.update name k (name i))
    refine ⟨name',?_,?_,?_⟩
    · rw [moveDown,moved,Nat.succ_add,Nat.add_succ]
    · have untouched : (List.range' (i+1) left).map (Function.update name k (name i)) = (List.range' (i+1) left).map name := by
        apply List.map_congr_left
        intro j member
        have above := (List.mem_range'_1.mp member).1
        exact Function.update_of_ne (by omega) _ _
      have first : name' k = name i := by rw [before k (Nat.lt_succ_self k),Function.update_self]
      rw [List.range'_succ,List.range'_succ,List.map_cons,List.map_cons,copied,untouched,first]
    · intro j below
      rw [before j (by omega),Function.update_of_ne (by omega)]

theorem text_ended {name : Nat → Char} {k : Nat} {chars : List Char} (short : k ≤ 6)
    (written : (List.range' 0 k).map name = chars) (clean : '\x00' ∉ chars) : text (Function.update name k '\x00') = chars := by
  obtain ⟨rest,split⟩ := Nat.exists_eq_add_of_le short
  have parts : List.range 7 = List.range' 0 k++k::List.range' (k+1) rest := by
    have whole : List.range' 0 k++List.range' (0+k) (rest+1) = List.range' 0 (k+(rest+1)) := List.range'_append_1
    rw [Nat.zero_add,List.range'_succ,← Nat.add_assoc,← split] at whole
    exact whole.symm
  have before : (List.range' 0 k).map (Function.update name k '\x00') = chars := by
    rw [← written]
    apply List.map_congr_left
    intro j member
    have below := (List.mem_range'_1.mp member).2
    exact Function.update_of_ne (by omega) _ _
  rw [text,parts,List.map_append,before,List.map_cons,Function.update_self,List.takeWhile_append_of_pos]
  · simp
  · intro c member
    exact decide_eq_true fun same => clean (same ▸ member)

def shown (name : List Char) : List Char := (seen name).map plain

theorem shown_clean (name : List Char) : '\x00' ∉ shown name := by
  intro member
  obtain ⟨c,-,same⟩ := List.mem_map.mp member
  exact (coded c).kept same

theorem round_trip (abi : Abi) (name : List Char) (buffer : Nat → Char) :
    text (num2nam (nam2num abi name) buffer) = shown name := by
  rw [nam2num_eq]
  split
  · rename_i empty
    rw [num2nam,if_pos rfl,shown,empty]
    exact text_ended (k := 0) (by decide) rfl (by simp)
  · rename_i full
    have wide : 32 ≤ abi.long := by cases abi <;> decide
    have small := number_lt name
    have short : (digits name).length ≤ 6 := digits_length name ▸ seen_length name
    have other : BitVec.ofNat abi.long (number name) ≠ 0xFFFFFFFF := by
      intro same
      have size := congrArg (fun num : BitVec abi.long => (num.setWidth 32).toNat) same
      simp only [BitVec.setWidth_ofNat_of_le wide,BitVec.ofNat_eq_ofNat,BitVec.toNat_ofNat] at size
      omega
    obtain ⟨first,ran,written,-⟩ := num2namLoop_eq wide (digits name) (digits_bounds name) short (small.trans (by decide)) buffer
    obtain ⟨second,moved,copied,-⟩ := moveDown_eq (digits name).length (Nat.zero_le (6-(digits name).length)) first
    have left : 6-(6-(digits name).length) = (digits name).length := by omega
    have letters : ((digits name).map fun d => letter (BitVec.ofNat 32 d)).reverse = shown name := by
      rw [← List.map_reverse,digits,List.reverse_reverse,List.map_map,shown]
      exact List.map_congr_left fun c _ => (coded c).decoded
    rw [num2nam,if_neg other]
    simp only [number,ran,left,moved,Nat.zero_add]
    exact text_ended short (copied.trans (written.trans letters)) (shown_clean name)

theorem nam2num_shown (abi : Abi) (name : List Char) : nam2num abi (shown name) = nam2num abi name := by
  have again : seen (shown name) = shown name := by
    have whole : (shown name).takeWhile (· ≠ '\x00') = shown name := by
      apply List.takeWhile_eq_self_iff.mpr
      intro c member
      exact decide_eq_true fun same => shown_clean name (same ▸ member)
    rw [seen,whole,List.take_of_length_le]
    rw [shown,List.length_map]
    exact seen_length name
  have same : digits (shown name) = digits name := by
    rw [digits,again,shown,List.map_map,digits]
    exact congrArg List.reverse (List.map_congr_left fun c _ => (coded c).again)
  rw [nam2num_eq,nam2num_eq,again,number,same,← number]
  simp only [shown,List.map_eq_nil_iff]

theorem names_told_apart (abi : Abi) (a b : List Char) (buffer : Nat → Char) :
    text (num2nam (nam2num abi a) buffer) = shown a ∧ (nam2num abi a = nam2num abi b ↔ shown a = shown b) := by
  refine ⟨round_trip abi a buffer,?_,?_⟩
  · intro same
    rw [← round_trip abi a buffer,same,round_trip]
  · intro same
    rw [← nam2num_shown,same,nam2num_shown]

end Scada.TaskName
