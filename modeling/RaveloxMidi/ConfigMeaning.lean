import RaveloxMidi.ConfigFile

/-!
# What a configuration file means

A line is a comment, or a key and a value with separators between them. The file
means that every key has the value of its last line. Files of short lines with a word
in each are read so.
-/
namespace RaveloxMidi
open ByteMemory CText KeyedTable Transducer

/-- The lines of a file, each with the newline that ends it. -/
def textLines : List UInt8 → List (List UInt8)
  | [] => []
  | c :: rest =>
    if c = newline then [c] :: textLines rest
    else
      match textLines rest with
      | [] => [[c]]
      | first :: others => (c :: first) :: others

/-- The text of a line is a comment, or names a key and its value. There may be white
space around either, and no separators if there is no value. -/
inductive LineMeans : List UInt8 → Option (List UInt8 × List UInt8) → Prop where
  | comment {before rest : List UInt8} (hbefore : ∀ c ∈ before, isSpace c = true) :
      LineMeans (before ++ commentSign :: rest) none
  | entry {before key separators value after : List UInt8}
      (hbefore : ∀ c ∈ before, isSpace c = true)
      (hkey : key ≠ []) (hchars : ∀ c ∈ key, isKeyChar c = true)
      (hcomment : key.head? ≠ some commentSign)
      (hseparators : ∀ c ∈ separators, isSeparator c = true)
      (hseparated : separators = [] → value = [])
      (hfirst : ∀ c ∈ value.head?, isSeparator c = false)
      (hlast : ∀ c ∈ value.getLast?, isSpace c = false)
      (hafter : ∀ c ∈ after, isSpace c = true) :
      LineMeans (before ++ key ++ separators ++ value ++ after) (some (key, value))

/-- The value of a key after a file with some meanings of its lines: that of the last line
with the key, or the one before. -/
def meantValue (items : List (Option (List UInt8 × List UInt8))) (table : KvTable)
    (key : List UInt8) : Option (List UInt8) :=
  match items.reduceOption.reverse.find? fun item => item.1.map lowerCase = key.map lowerCase with
  | some item => some item.2
  | none => kvGetValue table key

section Meaning
variable {text : List UInt8} {item : Option (List UInt8 × List UInt8)}

theorem rdropWhile_append (front : List UInt8) {gone : List UInt8}
    (hgone : ∀ c ∈ gone, isSpace c = true) :
    (front ++ gone).rdropWhile isSpace = front.rdropWhile isSpace := by
  induction gone using List.reverseRecOn with
  | nil => rw [List.append_nil]
  | append_singleton gone c ih =>
    obtain ⟨hgone, hc⟩ := List.forall_mem_append.mp hgone
    rw [← List.append_assoc, List.rdropWhile_concat_pos _ _ _ (hc c (List.mem_singleton_self c)),
      ih hgone]

theorem rdropWhile_last (front : List UInt8) {c : UInt8} (hc : isSpace c = false) :
    (front ++ [c]).rdropWhile isSpace = front ++ [c] :=
  List.rdropWhile_concat_neg _ _ _ (by simp [hc])

theorem dropWhile_front {more : UInt8 → Bool} {front : List UInt8} {c : UInt8}
    (hfront : ∀ b ∈ front, more b = true) (hc : more c = false) (rest : List UInt8) :
    (front ++ c :: rest).dropWhile more = c :: rest := by
  rw [List.dropWhile_append_of_pos hfront, List.dropWhile_cons_of_neg (by simp [hc])]

/-- A key character is not white space. -/
theorem isKeyChar_space {c : UInt8} (hc : isKeyChar c = true) : isSpace c = false := by
  simp only [isKeyChar, Bool.and_eq_true, Bool.not_eq_true'] at hc
  exact hc.1

/-- What stands behind a character other than white space is trimmed to a part of it. -/
theorem rdropWhile_behind (front : List UInt8) {c : UInt8} (hc : isSpace c = false)
    (tail : List UInt8) : ∃ kept, kept <+: tail ∧
      (front ++ c :: tail).rdropWhile isSpace = front ++ c :: kept := by
  induction tail using List.reverseRecOn with
  | nil => exact ⟨[], List.nil_prefix, rdropWhile_last front hc⟩
  | append_singleton tail b ih =>
    rw [← List.cons_append, ← List.append_assoc]
    by_cases hb : isSpace b = true
    · obtain ⟨kept, hkept, hstripped⟩ := ih
      rw [List.rdropWhile_concat_pos _ _ _ hb]
      exact ⟨kept, hkept.trans (List.prefix_append tail [b]), hstripped⟩
    · refine ⟨tail ++ [b], List.prefix_refl _, ?_⟩
      rw [rdropWhile_last _ (by simpa using hb), List.append_assoc, List.cons_append]

/-- A line with a key and a value is trimmed to these and some of the separators. -/
theorem trimmed_entry {before key separators value after : List UInt8}
    (hbefore : ∀ c ∈ before, isSpace c = true) (hkey : key ≠ [])
    (hchars : ∀ c ∈ key, isKeyChar c = true) (hseparators : ∀ c ∈ separators, isSeparator c = true)
    (hseparated : separators = [] → value = []) (hlast : ∀ c ∈ value.getLast?, isSpace c = false)
    (hafter : ∀ c ∈ after, isSpace c = true) :
    ∃ kept, (∀ c ∈ kept, isSeparator c = true) ∧ (kept = [] → value = []) ∧
      trimmed (before ++ key ++ separators ++ value ++ after) = key ++ (kept ++ value) := by
  obtain ⟨kept, hkept, hempty, hstripped⟩ : ∃ kept, (∀ c ∈ kept, isSeparator c = true) ∧
      (kept = [] → value = []) ∧ (before ++ key ++ separators ++ value).rdropWhile isSpace =
        before ++ (key ++ (kept ++ value)) := by
    rcases List.eq_nil_or_concat' value with rfl | ⟨front, c, rfl⟩
    · obtain ⟨front, c, rfl⟩ := (List.eq_nil_or_concat' key).resolve_left hkey
      obtain ⟨kept, hkept, hstripped⟩ := rdropWhile_behind (before ++ front)
        (isKeyChar_space (hchars c (by simp))) separators
      refine ⟨kept, fun b hb => hseparators b (hkept.subset hb), fun _ => rfl, ?_⟩
      simpa using hstripped
    · refine ⟨separators, hseparators, hseparated, ?_⟩
      rw [← List.append_assoc, rdropWhile_last _ (hlast c (by simp))]
      simp only [List.append_assoc]
  refine ⟨kept, hkept, hempty, ?_⟩
  obtain ⟨c, rest, rfl⟩ := List.exists_cons_of_ne_nil hkey
  rw [trimmed, rdropWhile_append _ hafter, hstripped, List.cons_append,
    dropWhile_front hbefore (isKeyChar_space (hchars c (List.mem_cons_self ..)))]

/-- The line is cut into what it means. -/
theorem LineMeans.item_eq (h : LineMeans text item) : lineItem text = item.toList := by
  cases h with
  | @comment before rest hbefore =>
    obtain ⟨kept, -, hkept⟩ := rdropWhile_behind before (show isSpace commentSign = false by decide)
      rest
    have htrimmed : trimmed (before ++ commentSign :: rest) = commentSign :: kept := by
      rw [trimmed, hkept, dropWhile_front hbefore (by decide)]
    simp only [lineItem, htrimmed, List.head?_cons, if_true, Option.toList_none]
  | @entry before key separators value after hbefore hkey hchars hcomment hseparators hseparated
      hfirst hlast hafter =>
    obtain ⟨kept, hkept, hempty, htrimmed⟩ :=
      trimmed_entry hbefore hkey hchars hseparators hseparated hlast hafter
    have hbehind : (kept ++ value).takeWhile isKeyChar = [] ∧
        (kept ++ value).dropWhile isKeyChar = kept ++ value := by
      cases kept with
      | nil => simp [hempty rfl]
      | cons c rest =>
        have hc : ¬ isKeyChar c = true := by
          have hseparator := hkept c (List.mem_cons_self ..)
          rw [isSeparator_eq] at hseparator
          simpa using hseparator
        exact ⟨List.takeWhile_cons_of_neg hc, List.dropWhile_cons_of_neg hc⟩
    have hdrop : (kept ++ value).dropWhile isSeparator = value := by
      rw [List.dropWhile_append_of_pos hkept]
      cases value with
      | nil => rfl
      | cons c rest => exact List.dropWhile_cons_of_neg (by simpa using hfirst c rfl)
    have hhead : ¬ (key ++ (kept ++ value)).head? = some commentSign := by
      rw [List.head?_append_of_ne_nil _ hkey]
      exact hcomment
    simp only [lineItem, htrimmed, if_neg hhead, List.takeWhile_append_of_pos hchars, hbehind.1,
      List.append_nil, List.dropWhile_append_of_pos hchars, hbehind.2, hdrop, Option.toList_some]

theorem LineMeans.key_ne {item : List UInt8 × List UInt8} (h : LineMeans text (some item)) :
    item.1 ≠ [] := by
  cases h with
  | entry _ hkey => exact hkey

/-- A line that means something has a word. -/
theorem LineMeans.hasWord (h : LineMeans text item) : ∃ c ∈ text, isSpace c = false := by
  cases h with
  | comment hbefore => exact ⟨commentSign, by simp, by decide⟩
  | @entry _ key _ _ _ _ hkey hchars =>
    obtain ⟨c, rest, rfl⟩ := List.exists_cons_of_ne_nil hkey
    exact ⟨c, by simp, isKeyChar_space (hchars c (List.mem_cons_self ..))⟩

end Meaning

section File
variable {contents line : List UInt8}

theorem textLines_nil {stream : List UInt8} (h : textLines stream = []) : stream = [] := by
  cases stream with
  | nil => rfl
  | cons c stream =>
    rw [textLines] at h
    split_ifs at h
    split at h <;> cases h

/-- If the first line is short enough, `fgets` gives it. -/
theorem takeLine_eq {stream first : List UInt8} {others : List (List UInt8)} {room : ℕ}
    (hlines : textLines stream = first :: others) (hroom : first.length ≤ room) :
    ∃ rest, takeLine room stream = (first, rest) ∧ textLines rest = others ∧
      rest.length < stream.length := by
  induction stream generalizing first room with
  | nil => cases hlines
  | cons c stream ih =>
    rw [textLines] at hlines
    split_ifs at hlines with hnewline
    · cases hlines
      obtain ⟨room, rfl⟩ := Nat.exists_eq_add_one_of_ne_zero (Nat.ne_of_gt hroom)
      exact ⟨stream, by rw [takeLine, if_pos hnewline], rfl, Nat.lt_succ_self _⟩
    · cases hbehind : textLines stream with
      | nil =>
        rw [hbehind] at hlines
        cases hlines
        obtain ⟨room, rfl⟩ := Nat.exists_eq_add_one_of_ne_zero (Nat.ne_of_gt hroom)
        obtain rfl := textLines_nil hbehind
        refine ⟨[], ?_, rfl, Nat.succ_pos 0⟩
        rw [takeLine, if_neg hnewline]
        cases room <;> rfl
      | cons next more =>
        rw [hbehind] at hlines
        cases hlines
        rw [List.length_cons] at hroom
        obtain ⟨room, rfl⟩ := Nat.exists_eq_add_one_of_ne_zero (show room ≠ 0 by omega)
        obtain ⟨rest, htaken, hrest, hshorter⟩ := ih hbehind (Nat.le_of_succ_le_succ hroom)
        refine ⟨rest, ?_, hrest, Nat.lt_succ_of_lt hshorter⟩
        rw [takeLine, if_neg hnewline, htaken]

/-- A file of short lines is read line by line. -/
theorem chunks_eq_lines (calls : ℕ) (hcalls : contents.length ≤ calls)
    (hshort : ∀ l ∈ textLines contents, l.length < maxConfigLine) :
    configChunks calls contents = textLines contents := by
  induction calls generalizing contents with
  | zero =>
    rw [List.length_eq_zero_iff.mp (Nat.le_zero.mp hcalls)]
    rfl
  | succ calls ih =>
    cases hlines : textLines contents with
    | nil =>
      rw [textLines_nil hlines]
      rfl
    | cons first others =>
      rw [hlines] at hshort
      obtain ⟨hfirst, hothers⟩ := List.forall_mem_cons.mp hshort
      obtain ⟨rest, htaken, hrest, hshorter⟩ := takeLine_eq hlines (Nat.le_sub_one_of_lt hfirst)
      have hne : contents ≠ [] := by
        rintro rfl
        cases hlines
      simp only [configChunks, fgets, if_neg hne, htaken]
      rw [ih (by omega) (hrest ▸ hothers), hrest]

/-- The keys and values that lines stand for, none of the keys being empty. -/
theorem lines_items {lines : List (List UInt8)} {items : List (Option (List UInt8 × List UInt8))}
    (h : List.Forall₂ (fun l item => LineMeans (upToZero l) item) lines items) :
    (lines.flatMap fun l => lineItem (upToZero l)) = items.reduceOption ∧
      (∀ l ∈ lines, HasWord l) ∧ ∀ item ∈ items.reduceOption, item.1 ≠ [] := by
  induction h with
  | nil => exact ⟨rfl, by simp, fun item h => absurd h List.not_mem_nil⟩
  | @cons l item lines items hfirst _ ih =>
    obtain ⟨hitems, hwords, hkeys⟩ := ih
    have hword : HasWord l := hfirst.hasWord
    refine ⟨?_, List.forall_mem_cons.mpr ⟨hword, hwords⟩, ?_⟩
    · rw [List.flatMap_cons, hfirst.item_eq, hitems]
      cases item <;> rfl
    · cases item with
      | none => exact hkeys
      | some item => exact List.forall_mem_cons.mpr ⟨hfirst.key_ne, hkeys⟩

/-- Items with a key are put into the table one after the other. -/
theorem addItems_eq (table : KvTable) {items : List (List UInt8 × List UInt8)}
    (hkeys : ∀ item ∈ items, item.1 ≠ []) :
    configAddItems table items =
      (items.map fun item => (item.1, some item.2)).foldl
        (fun table item => table.put item.1 item.2) table := by
  induction items generalizing table with
  | nil => rfl
  | cons item items ih =>
    obtain ⟨hfirst, hrest⟩ := List.forall_mem_cons.mp hkeys
    have hkey : ¬ item.1.length = 0 := fun h => hfirst (List.length_eq_zero_iff.mp h)
    rw [List.map_cons, List.foldl_cons, ← ih _ hrest, configAddItems, List.foldl_cons, kvAddItem,
      if_neg hkey, configAddItems]

/-- The value of a key is the one that was added last, or the one before. -/
theorem addItems_value (table : KvTable) {items : List (List UInt8 × List UInt8)}
    (hkeys : ∀ item ∈ items, item.1 ≠ []) (key : List UInt8) :
    kvGetValue (configAddItems table items) key =
      match items.reverse.find? fun item => item.1.map lowerCase = key.map lowerCase with
      | some item => some item.2
      | none => kvGetValue table key := by
  rw [kvGetValue, addItems_eq table hkeys, Table.get_putAll, ← List.map_reverse, List.find?_map]
  simp only [Function.comp_def]
  cases items.reverse.find? fun item => item.1.map lowerCase = key.map lowerCase with
  | none => rfl
  | some item => rfl

/-- A file of lines that mean something gives every key the value of its last line, and
leaves the others as they were, with one entry at most for each. -/
theorem file_means (hline : line.length = maxConfigLine + 1) (table : KvTable)
    {items : List (Option (List UInt8 × List UInt8))}
    (hshort : ∀ l ∈ textLines contents, l.length < maxConfigLine)
    (hmeans : List.Forall₂ (fun l item => LineMeans (upToZero l) item) (textLines contents) items) :
    ∃ t, configLoadFile (some contents) line table = .ok t ∧
      ∀ key, kvGetValue t key = meantValue items table key ∧
        (t.entries.filter fun entry => entry.1.map lowerCase = key.map lowerCase).length ≤ 1 := by
  obtain ⟨hitems, hwords, hkeys⟩ := lines_items hmeans
  have hchunks := chunks_eq_lines contents.length (le_refl _) hshort
  refine ⟨_, load_of_words hline table (by rw [hchunks]; exact hwords), fun key => ⟨?_, ?_⟩⟩
  · rw [hchunks, hitems]
    exact addItems_value table hkeys key
  · exact Table.entries_le_one _ key

/-- "a = 1", "# b" and "A<tab>2": both names are the same key. -/
theorem file_means_twice : ∃ t,
    configLoadFile (some [0x61, 0x20, 0x3d, 0x20, 0x31, 0x0a, 0x23, 0x62, 0x0a, 0x41, 0x09, 0x32])
      (List.replicate (maxConfigLine + 1) 0) Table.empty = .ok t ∧
    ∀ key, kvGetValue t key =
        meantValue [some ([0x61], [0x31]), none, some ([0x41], [0x32])] Table.empty key ∧
      (t.entries.filter fun entry => entry.1.map lowerCase = key.map lowerCase).length ≤ 1 := by
  have hlines : textLines
      [0x61, 0x20, 0x3d, 0x20, 0x31, 0x0a, 0x23, 0x62, 0x0a, 0x41, 0x09, 0x32] =
        [[0x61, 0x20, 0x3d, 0x20, 0x31, 0x0a], [0x23, 0x62, 0x0a], [0x41, 0x09, 0x32]] := by decide
  refine file_means List.length_replicate Table.empty (by rw [hlines]; decide) ?_
  rw [hlines]
  refine .cons ?_ (.cons ?_ (.cons ?_ .nil))
  · exact @LineMeans.entry [] [0x61] [0x20, 0x3d, 0x20] [0x31] [0x0a] (by simp) (by simp)
      (by simp; decide) (by decide) (by simp; decide) (by simp) (by simp; decide)
      (by simp; decide) (by simp; decide)
  · exact @LineMeans.comment [] [0x62, 0x0a] (by simp)
  · exact @LineMeans.entry [] [0x41] [0x09] [0x32] [] (by simp) (by simp) (by simp; decide)
      (by decide) (by simp; decide) (by simp) (by simp; decide) (by simp; decide) (by simp)

end File

end RaveloxMidi
