import Mathlib.Data.List.Infix
import Autr.Store.Entries

namespace Autr.Text

/-- `str.replace`: occurrences are found from the left and do not overlap. The counter
skips the characters of an occurrence that has been replaced already. -/
def replaceFrom (pat rep : List Char) : ℕ → List Char → List Char
  | _, [] => []
  | skip + 1, _ :: cs => replaceFrom pat rep skip cs
  | 0, c :: cs =>
      if pat.isPrefixOf (c :: cs) then rep ++ replaceFrom pat rep (pat.length - 1) cs
      else c :: replaceFrom pat rep 0 cs

def replace (pat rep s : String) : String :=
  String.ofList (replaceFrom pat.toList rep.toList 0 s.toList)

def isSpace (c : Char) : Bool := c = ' ' || c = '\n' || c = '\t' || c = '\r'

def stripLeft (s : List Char) : List Char := s.dropWhile isSpace

def stripRight (s : List Char) : List Char := (s.reverse.dropWhile isSpace).reverse

def strip (s : List Char) : List Char := stripRight (stripLeft s)

def contains (pat s : List Char) : Bool := decide (pat <:+: s)

/-- The letters of other scripts, by their numbers, whose capitals are ASCII. -/
def capitals : List (ℕ × List Char) :=
  [(0xDF, ['S', 'S']), (0x131, ['I']), (0x17F, ['S']), (0xFB00, ['F', 'F']), (0xFB01, ['F', 'I']), (0xFB02, ['F', 'L']),
    (0xFB03, ['F', 'F', 'I']), (0xFB04, ['F', 'F', 'L']), (0xFB05, ['S', 'T']), (0xFB06, ['S', 'T'])]

def upperChar (c : Char) : List Char := (capitals.lookup c.toNat).getD [c.toUpper]

/-- The Kelvin sign is the one letter of another script whose small letter is ASCII. -/
def lowerChar (c : Char) : Char := if c.toNat = 0x212A then 'k' else c.toLower

/-- `str.upper` of every text that comes out as ASCII; the other letters of other scripts are
left as they are. -/
def upper (s : List Char) : List Char := s.flatMap upperChar

/-- `str.lower`, as far as `upper` is `str.upper`. -/
def lower (s : List Char) : List Char := s.map lowerChar

/-- A letter is left as it is or becomes one of A to Z. -/
theorem toUpper_cases (c : Char) : c.toUpper = c ∨ c.toUpper.val ≤ 90 := by
  unfold Char.toUpper
  split
  · right
    grind [UInt32.toNat_add, Char.toNat_val]
  · exact .inl rfl

theorem toUpper_toUpper (c : Char) : c.toUpper.toUpper = c.toUpper := by
  have hcapital : ¬ (97 ≤ c.toUpper.val ∧ c.toUpper.val ≤ 122) := by
    unfold Char.toUpper
    split <;> grind [UInt32.toNat_add, Char.toNat_val]
  exact dif_neg hcapital

theorem lookup_capitals {n : ℕ} (h : n ≤ 90) : capitals.lookup n = none := by
  have hkeys : ∀ e ∈ capitals, 90 < e.1 := by decide
  rw [List.lookup_eq_none_iff]
  intro e he
  simpa using (h.trans_lt (hkeys e he)).ne

theorem upperChar_of_le {c : Char} (hle : c.toNat ≤ 90) (hupper : c.toUpper = c) : upperChar c = [c] := by
  rw [upperChar, lookup_capitals hle, Option.getD_none, hupper]

/-- A capital has no capital of its own. -/
theorem upperChar_of_mem {c d : Char} (h : d ∈ upperChar c) : upperChar d = [d] := by
  have hletters : capitals.all (fun e => e.2.all (fun d => d.toNat ≤ 90 ∧ d.toUpper = d)) = true := by decide
  simp only [List.all_eq_true, decide_eq_true_eq] at hletters
  rw [upperChar] at h
  cases hlookup : capitals.lookup c.toNat with
  | some letters =>
      rw [hlookup] at h
      obtain ⟨hle, hupper⟩ := hletters _ (Store.mem_of_lookup_eq_some hlookup) d h
      exact upperChar_of_le hle hupper
  | none =>
      rw [hlookup, Option.getD_none, List.mem_singleton] at h
      subst h
      rcases toUpper_cases c with hsame | hle
      · rw [hsame, upperChar, hlookup, Option.getD_none, hsame]
      · exact upperChar_of_le (UInt32.le_iff_toNat_le.1 hle) (toUpper_toUpper c)

theorem upper_upper (s : List Char) : upper (upper s) = upper s := by
  rw [upper, upper, List.flatMap_assoc]
  refine List.flatMap_congr (fun c _ => ?_)
  calc (upperChar c).flatMap upperChar = (upperChar c).flatMap (fun d => [d]) :=
        List.flatMap_congr (fun d hd => upperChar_of_mem hd)
    _ = upperChar c := List.flatMap_singleton' _

/-- `str.isspace`, in every script. -/
def isWhitespace (c : Char) : Bool :=
  let n := c.toNat
  (9 ≤ n && n ≤ 13) || (28 ≤ n && n ≤ 32) || n = 0x85 || n = 0xA0 || n = 0x1680 || (0x2000 ≤ n && n ≤ 0x200A) ||
    n = 0x2028 || n = 0x2029 || n = 0x202F || n = 0x205F || n = 0x3000

/-- `str.strip`. -/
def trim (s : String) : String :=
  String.ofList ((s.toList.dropWhile isWhitespace).reverse.dropWhile isWhitespace).reverse

end Autr.Text
