import RaveloxMidi.ByteMemory
import Mathlib.Data.List.DropRight

/-!
# Walking over text that ends with a zero

A text in a block of memory ends at the first zero. A pointer that walks over it
stops there, or at the first character that it is not to pass; a walk backwards has
no such stop at the front of the block. Every access is checked.
-/
namespace CText
open ByteMemory

/-- `while( *p && more( *p ) ) p++`, over the octets of the block from `p` on. -/
def walk (more : UInt8 → Bool) : List UInt8 → ℕ → Except Fault ℕ
  | [], _ => .error .outOfBounds
  | c :: rest, p => if c ≠ 0 ∧ more c = true then walk more rest (p + 1) else .ok p

/-- The text at a place of the block is read up to its end. -/
def textAt : List UInt8 → Except Fault (List UInt8)
  | [] => .error .outOfBounds
  | c :: rest => if c = 0 then .ok [] else (textAt rest).map (c :: ·)

/-- `while( *p && space( *p ) ) *p-- = 0`, where `p` is one before the given place. -/
def strip (space : UInt8 → Bool) (block : List UInt8) : ℕ → Except Fault (List UInt8)
  | 0 => .error .outOfBounds
  | p + 1 =>
    match block[p]? with
    | none => .error .outOfBounds
    | some c => if c ≠ 0 ∧ space c = true then strip space (block.set p 0) p else .ok block

/-- `while( p > start ) { if( stop( *p ) ) break; p--; }`, where the block is from `start` on. -/
def walkBack (stop : UInt8 → Bool) (block : List UInt8) : ℕ → Except Fault ℕ
  | 0 => .ok 0
  | p + 1 =>
    match block[p + 1]? with
    | none => .error .outOfBounds
    | some c => if stop c = true then .ok (p + 1) else walkBack stop block p

/-- `while( p < end ) { if( *p == c ) { p++; break; } p++; }`, as many octets before the end. -/
def walkPast (c : UInt8) (block : List UInt8) : ℕ → ℕ → Except Fault ℕ
  | p, 0 => .ok p
  | p, left + 1 =>
    match block[p]? with
    | none => .error .outOfBounds
    | some b => if b = c then .ok (p + 1) else walkPast c block (p + 1) left

/-- The part of a text in front of its first zero. -/
def upToZero (octets : List UInt8) : List UInt8 := octets.takeWhile (· ≠ 0)

variable {more space : UInt8 → Bool} {text rest : List UInt8} {c : UInt8}

theorem walk_stops (htext : ∀ b ∈ text, b ≠ 0 ∧ more b = true)
    (hstop : ¬ (c ≠ 0 ∧ more c = true)) (p : ℕ) :
    walk more (text ++ c :: rest) p = .ok (p + text.length) := by
  induction text generalizing p with
  | nil => rw [List.nil_append, walk, if_neg hstop, List.length_nil, Nat.add_zero]
  | cons b text ih =>
    obtain ⟨hfirst, hrest⟩ := List.forall_mem_cons.mp htext
    rw [List.cons_append, walk, if_pos hfirst, ih hrest, List.length_cons]
    congr 1
    omega

/-- Within a text the walk passes exactly the characters that it is to pass. -/
theorem walk_text (htext : ∀ b ∈ text, b ≠ 0) (p : ℕ) :
    walk more (text ++ 0 :: rest) p = .ok (p + (text.takeWhile more).length) := by
  have hpassed : ∀ b ∈ text.takeWhile more, b ≠ 0 ∧ more b = true := fun b hb =>
    ⟨htext b ((List.takeWhile_prefix more).subset hb), List.mem_takeWhile_imp hb⟩
  conv_lhs => rw [← @List.takeWhile_append_dropWhile _ more text, List.append_assoc]
  cases hbehind : text.dropWhile more with
  | nil => exact walk_stops hpassed (by simp) p
  | cons c behind =>
    have hc := List.head_dropWhile_not more (l := text) (by rw [hbehind]; simp)
    simp only [hbehind, List.head_cons] at hc
    exact walk_stops hpassed (by simp [hc]) p

theorem textAt_eq (htext : ∀ b ∈ text, b ≠ 0) : textAt (text ++ 0 :: rest) = .ok text := by
  induction text with
  | nil => rfl
  | cons b text ih =>
    obtain ⟨hfirst, hrest⟩ := List.forall_mem_cons.mp htext
    rw [List.cons_append, textAt, if_neg hfirst, ih hrest]
    rfl

/-- An octet of a block is read at its place. -/
theorem load_octet (front rest : List UInt8) (c : UInt8) :
    load (front ++ c :: rest) front.length 1 = .ok [c] := by
  rw [load_ok (by simp), List.drop_left]
  rfl

/-- An octet of a block is replaced. -/
theorem store_octet (front rest : List UInt8) (c b : UInt8) :
    store (front ++ c :: rest) front.length [b] = .ok (front ++ b :: rest) := by
  have hstore := store_middle front [c] rest [b] rfl
  rw [List.append_assoc, List.append_assoc, List.singleton_append, List.singleton_append] at hstore
  exact hstore

theorem upToZero_ne (octets : List UInt8) : ∀ b ∈ upToZero octets, b ≠ 0 := by
  intro b hb
  simpa using List.mem_takeWhile_imp hb

/-- A zero behind the octets ends their text, if they have none before. -/
theorem upToZero_zero (octets rest : List UInt8) :
    ∃ more, octets ++ 0 :: rest = upToZero octets ++ 0 :: more := by
  induction octets with
  | nil => exact ⟨rest, rfl⟩
  | cons b octets ih =>
    by_cases hb : b = 0
    · exact ⟨octets ++ 0 :: rest, by simp [upToZero, hb]⟩
    · obtain ⟨more, hmore⟩ := ih
      refine ⟨more, ?_⟩
      rw [upToZero, List.takeWhile_cons_of_pos (by simpa using hb), List.cons_append, hmore]
      rfl

/-- One step backwards over a character that is to go. -/
theorem strip_step (front rest : List UInt8) (hc : c ≠ 0 ∧ space c = true) :
    strip space (front ++ c :: rest) (front.length + 1) =
      strip space (front ++ 0 :: rest) front.length := by
  rw [strip, List.getElem?_append_right (le_refl _), Nat.sub_self, List.getElem?_cons_zero]
  simp only [if_pos hc, List.set_append_right _ _ (le_refl _), Nat.sub_self, List.set_cons_zero]

/-- The walk backwards puts zeros over the characters that are to go, and stays at the
last one that is not. -/
theorem strip_stops (front rest : List UInt8) {gone : List UInt8}
    (hgone : ∀ b ∈ gone, b ≠ 0 ∧ space b = true)
    (hc : ¬ (c ≠ 0 ∧ space c = true)) :
    strip space (front ++ c :: (gone ++ rest)) (front.length + 1 + gone.length) =
      .ok (front ++ c :: (List.replicate gone.length 0 ++ rest)) := by
  induction gone using List.reverseRecOn generalizing rest with
  | nil =>
    rw [List.length_nil, Nat.add_zero, strip, List.getElem?_append_right (le_refl _), Nat.sub_self,
      List.nil_append, List.getElem?_cons_zero]
    simp only [if_neg hc, List.replicate_zero, List.nil_append]
  | append_singleton gone b ih =>
    obtain ⟨hfront, hb⟩ := List.forall_mem_append.mp hgone
    have hstep := strip_step (front ++ c :: gone) rest (hb b (List.mem_singleton_self b))
    have hlength : (front ++ c :: gone).length = front.length + 1 + gone.length := by
      rw [List.length_append, List.length_cons]
      omega
    rw [hlength, List.append_assoc, List.append_assoc, List.cons_append, List.cons_append] at hstep
    rw [List.append_assoc, List.singleton_append, List.length_append, List.length_singleton,
      ← Nat.add_assoc, hstep, ih _ hfront, List.replicate_succ', List.append_assoc,
      List.singleton_append]

/-- Without a character to stay at the walk leaves the block at its front. -/
theorem strip_leaves {gone : List UInt8} (hgone : ∀ b ∈ gone, b ≠ 0 ∧ space b = true) :
    strip space (gone ++ rest) gone.length = .error .outOfBounds := by
  induction gone using List.reverseRecOn generalizing rest with
  | nil => rfl
  | append_singleton gone b ih =>
    obtain ⟨hfront, hb⟩ := List.forall_mem_append.mp hgone
    rw [List.append_assoc, List.singleton_append, List.length_append, List.length_singleton,
      strip_step gone rest (hb b (List.mem_singleton_self b)), ih hfront]

/-- A text with some octet of a kind has a last one. -/
theorem exists_last {kind : UInt8 → Bool} (h : ∃ b ∈ text, kind b = true) :
    ∃ front b behind, text = front ++ b :: behind ∧ kind b = true ∧
      ∀ other ∈ behind, kind other = false := by
  induction text with
  | nil =>
    obtain ⟨b, hb, -⟩ := h
    cases hb
  | cons first text ih =>
    by_cases hlater : ∃ b ∈ text, kind b = true
    · obtain ⟨front, b, behind, rfl, hb, hbehind⟩ := ih hlater
      exact ⟨first :: front, b, behind, rfl, hb, hbehind⟩
    · obtain ⟨b, hb, hkind⟩ := h
      have hfirst : b = first :=
        (List.mem_cons.mp hb).resolve_right fun hb => hlater ⟨b, hb, hkind⟩
      refine ⟨[], first, text, rfl, hfirst ▸ hkind, fun other hother => ?_⟩
      simpa using fun hkind => hlater ⟨other, hother, hkind⟩

/-- The walk backwards passes over what does not stop it. -/
theorem walkBack_passes {stop : UInt8 → Bool} {passed : List UInt8}
    (hpassed : ∀ b ∈ passed, stop b = false) (front : List UInt8) (c : UInt8)
    (rest : List UInt8) :
    walkBack stop (front ++ c :: (passed ++ rest)) (front.length + passed.length) =
      walkBack stop (front ++ c :: (passed ++ rest)) front.length := by
  induction passed using List.reverseRecOn generalizing rest with
  | nil => rfl
  | append_singleton passed b ih =>
    obtain ⟨hinner, hb⟩ := List.forall_mem_append.mp hpassed
    have hat : (front ++ c :: (passed ++ b :: rest))[front.length + passed.length + 1]? =
        some b := by
      simp [Nat.add_assoc]
    rw [List.append_assoc, List.singleton_append, List.length_append, List.length_singleton,
      ← Nat.add_assoc, walkBack, hat]
    simp only [hb b (List.mem_singleton_self b), Bool.false_eq_true, if_false]
    exact ih hinner (b :: rest)

/-- It stops at the last octet that stops it. -/
theorem walkBack_stops {stop : UInt8 → Bool} {front passed : List UInt8} (hfront : front ≠ [])
    (hc : stop c = true) (hpassed : ∀ b ∈ passed, stop b = false) (rest : List UInt8) :
    walkBack stop (front ++ c :: (passed ++ rest)) (front.length + passed.length) =
      .ok front.length := by
  obtain ⟨p, hp⟩ := Nat.exists_eq_succ_of_ne_zero (mt List.length_eq_zero_iff.mp hfront)
  have hat : (front ++ c :: (passed ++ rest))[front.length]? = some c := by simp
  rw [walkBack_passes hpassed]
  rw [hp] at hat ⊢
  rw [walkBack, hat]
  simp only [if_pos hc]

/-- Without such an octet behind the first it comes to the front, where it does not look. -/
theorem walkBack_front {stop : UInt8 → Bool} {passed : List UInt8}
    (hpassed : ∀ b ∈ passed, stop b = false) (first : UInt8) (rest : List UInt8) :
    walkBack stop (first :: (passed ++ rest)) passed.length = .ok 0 := by
  have hfront := walkBack_passes hpassed [] first rest
  rw [List.nil_append, List.length_nil, Nat.zero_add] at hfront
  exact hfront

/-- The walk forwards stops behind the first octet it looks for, or at the end. -/
theorem walkPast_eq (c : UInt8) (front text rest : List UInt8) :
    walkPast c (front ++ (text ++ rest)) front.length text.length =
      .ok (front.length + (text.length - (text.dropWhile (· ≠ c)).tail.length)) := by
  induction text generalizing front with
  | nil => rfl
  | cons b text ih =>
    have hat : (front ++ (b :: (text ++ rest)))[front.length]? = some b := by simp
    rw [List.length_cons, walkPast, List.cons_append, hat]
    by_cases hb : b = c
    · simp [hb]
    · have hbehind := ih (front ++ [b])
      have hle : (text.dropWhile (· ≠ c)).tail.length ≤ text.length := by
        rw [List.length_tail]
        exact le_trans (Nat.sub_le _ _) (List.dropWhile_suffix _).length_le
      rw [List.append_assoc, List.singleton_append, List.length_append, List.length_singleton]
        at hbehind
      rw [List.dropWhile_cons_of_pos (by simpa using hb)]
      simp only [if_neg hb, hbehind]
      congr 1
      omega

end CText
