import RaveloxMidi.AlsaDevice
import RaveloxMidi.CText
import RaveloxMidi.KeyedTable
import RaveloxMidi.Transducer

/-!
# Reading a configuration file

The file is read line by line into one array, in which each line is trimmed and cut
into a key and a value in place. The trimming starts at the last character and goes
back over white space; nothing but a character that is not white space keeps it
inside of the array.
-/
namespace RaveloxMidi
open ByteMemory CText KeyedTable Transducer

/-- `config_items`: the keys are compared without regard to case, and a value may be a
null pointer. -/
abbrev KvTable := Table (List.map lowerCase) (Option (List UInt8))

def kvGetValue (table : KvTable) (key : List UInt8) : Option (List UInt8) :=
  (table.get key).join

/-- An empty key is not added. -/
def kvAddItem (table : KvTable) (key : List UInt8) (value : Option (List UInt8)) : KvTable :=
  if key.length = 0 then table else table.put key value

/-- `isspace` in the C locale. -/
def isSpace (c : UInt8) : Bool := c == 0x20 || (0x09 ≤ c && c ≤ 0x0d)

/-- '=' -/
def equalsSign : UInt8 := 0x3d

/-- '#' -/
def commentSign : UInt8 := 0x23

/-- '\\n' -/
def newline : UInt8 := 0x0a

def maxConfigLine : ℕ := 1024

/-- The characters of a key. -/
def isKeyChar (c : UInt8) : Bool := !isSpace c && c != equalsSign

/-- The characters between a key and its value. -/
def isSeparator (c : UInt8) : Bool := isSpace c || c == equalsSign

/-- Up to so many characters of a stream, not further than the end of the line. -/
def takeLine : ℕ → List UInt8 → List UInt8 × List UInt8
  | 0, stream => ([], stream)
  | _ + 1, [] => ([], [])
  | room + 1, c :: stream =>
    if c = newline then ([c], stream)
    else
      let taken := takeLine room stream
      (c :: taken.1, taken.2)

/-- `fgets`: at the end of the stream there is nothing to give. -/
def fgets (size : ℕ) (stream : List UInt8) : Option (List UInt8 × List UInt8) :=
  if stream = [] then none else some (takeLine (size - 1) stream)

/-- What the calls of `fgets` give one after the other, of which there are no more than
characters in the stream. -/
def configChunks : ℕ → List UInt8 → List (List UInt8)
  | 0, _ => []
  | calls + 1, stream =>
    match fgets maxConfigLine stream with
    | none => []
    | some (chunk, rest) => chunk :: configChunks calls rest

/-- The trailing white space is removed from `config_line`. -/
def configTrim (line : List UInt8) : Except Fault (List UInt8) := do
  let length ← walk (fun _ => true) line 0
  strip isSpace line length

/-- The key begins at `p1`. It is ended with a zero, and the value begins behind the
separators. -/
def configSplit (line : List UInt8) (p1 : ℕ) :
    Except Fault (List UInt8 × List UInt8 × List UInt8) := do
  let p2 ← walk isKeyChar (line.drop p1) p1
  let c ← load line p2 1
  let line ← if c ≠ [0] then store line p2 [0] else .ok line
  let p2 := if c ≠ [0] then p2 + 1 else p2
  let p2 ← walk isSeparator (line.drop p2) p2
  let key ← textAt (line.drop p1)
  let value ← textAt (line.drop p2)
  return (line, key, value)

/-- One round of the loop in `config_load_file`, after `fgets`: the array, and what
`config_add_item` is called with, if it is. -/
def configLine (line chunk : List UInt8) :
    Except Fault (List UInt8 × List (List UInt8 × List UInt8)) := do
  let line ← store line 0 (chunk ++ [0])
  let line ← configTrim line
  let p1 ← walk isSpace line 0
  let first ← load line p1 1
  if first = [commentSign] then return (line, [])
  let (line, item) ← configSplit line p1
  return (line, [item])

/-- The calls of `config_add_item`. -/
def configAddItems (table : KvTable) (items : List (List UInt8 × List UInt8)) : KvTable :=
  items.foldl (fun table item => kvAddItem table item.1 (some item.2)) table

/-- `config_load_file`. Without a file that can be opened the table stays as it is. The
array is on the stack, with whatever is there. -/
def configLoadFile (file : Option (List UInt8)) (line : List UInt8) (table : KvTable) :
    Except Fault KvTable :=
  match file with
  | none => .ok table
  | some contents => do
    let done ← run configLine line (configChunks contents.length contents)
    return configAddItems table done.2

/-- The part of a line between the white space around it. -/
def trimmed (text : List UInt8) : List UInt8 := (text.rdropWhile isSpace).dropWhile isSpace

/-- The key and the value that a text stands for, if it is not a comment. -/
def lineItem (text : List UInt8) : List (List UInt8 × List UInt8) :=
  let body := trimmed text
  if body.head? = some commentSign then []
  else [(body.takeWhile isKeyChar, (body.dropWhile isKeyChar).dropWhile isSeparator)]

/-- There is something else than white space in front of the first zero. -/
def HasWord (chunk : List UInt8) : Prop := ∃ c ∈ upToZero chunk, isSpace c = false

section Line
variable {line chunk text rest : List UInt8}

/-- `strlen` -/
theorem walk_end (htext : ∀ b ∈ text, b ≠ 0) :
    walk (fun _ => true) (text ++ 0 :: rest) 0 = .ok text.length := by
  rw [walk_stops (fun b hb => ⟨htext b hb, rfl⟩) (by simp), Nat.zero_add]

/-- A text with something else than white space, cut behind the last such character. -/
theorem hasWord_split (hword : ∃ c ∈ text, isSpace c = false) :
    ∃ front c gone, text = front ++ c :: gone ∧ isSpace c = false ∧
      (∀ b ∈ gone, isSpace b = true) ∧ text.rdropWhile isSpace = front ++ [c] := by
  have hne : text.rdropWhile isSpace ≠ [] := by
    rw [Ne, List.rdropWhile_eq_nil_iff]
    obtain ⟨c, hmem, hc⟩ := hword
    exact fun hall => Bool.false_ne_true (hc.symm.trans (hall c hmem))
  have hlast := List.rdropWhile_last_not isSpace text hne
  obtain ⟨front, c, hfront⟩ := List.eq_nil_or_concat' (text.rdropWhile isSpace) |>.resolve_left hne
  refine ⟨front, c, text.rtakeWhile isSpace, ?_, ?_, fun b hb => List.mem_rtakeWhile_imp hb, hfront⟩
  · conv_lhs => rw [← @List.rdropWhile_append_rtakeWhile _ isSpace text, hfront]
    rw [List.append_assoc, List.singleton_append]
  · simpa [hfront] using hlast

/-- The trimming ends the line behind the last character that is not white space. -/
theorem configTrim_ok (rest : List UInt8) (htext : ∀ b ∈ text, b ≠ 0)
    (hword : ∃ c ∈ text, isSpace c = false) :
    ∃ more, configTrim (text ++ 0 :: rest) = .ok (text.rdropWhile isSpace ++ 0 :: more) ∧
      (text.rdropWhile isSpace ++ 0 :: more).length = (text ++ 0 :: rest).length := by
  obtain ⟨front, c, gone, rfl, hc, hgone, htrimmed⟩ := hasWord_split hword
  have hzeros : List.replicate gone.length (0 : UInt8) ++ 0 :: rest =
      0 :: (List.replicate gone.length 0 ++ rest) := by
    rw [← List.singleton_append, ← List.append_assoc, ← List.replicate_succ',
      List.replicate_succ, List.cons_append]
  have hstop : ¬ (c ≠ 0 ∧ isSpace c = true) := by simp [hc]
  have hstrip := strip_stops front (0 :: rest)
    (fun b hb => ⟨htext b (by simp [hb]), hgone b hb⟩) hstop
  have hlength : (front ++ c :: gone).length = front.length + 1 + gone.length := by
    rw [List.length_append, List.length_cons]
    omega
  refine ⟨List.replicate gone.length 0 ++ rest, ?_, ?_⟩
  · simp only [configTrim, walk_end htext, hlength, bind, Except.bind, htrimmed]
    rw [List.append_assoc, List.cons_append, hstrip, hzeros, List.append_assoc,
      List.singleton_append]
  · simp only [htrimmed, List.length_append, List.length_cons, List.length_nil,
      List.length_replicate]
    omega

/-- A text of white space only is trimmed beyond its front. -/
theorem configTrim_leaves (rest : List UInt8) (htext : ∀ b ∈ text, b ≠ 0)
    (hword : ∀ c ∈ text, isSpace c = true) :
    configTrim (text ++ 0 :: rest) = .error .outOfBounds := by
  simp only [configTrim, walk_end htext, bind, Except.bind]
  exact strip_leaves fun b hb => ⟨htext b hb, hword b hb⟩

/-- Behind the separators the text is read up to its end. -/
theorem value_at (front rest : List UInt8) {tail : List UInt8} (htail : ∀ b ∈ tail, b ≠ 0) :
    ∃ p, walk isSeparator ((front ++ (tail ++ 0 :: rest)).drop front.length) front.length =
        .ok p ∧
      textAt ((front ++ (tail ++ 0 :: rest)).drop p) = .ok (tail.dropWhile isSeparator) := by
  refine ⟨front.length + (tail.takeWhile isSeparator).length, ?_, ?_⟩
  · rw [List.drop_left, walk_text htail]
  · have hdrop : (tail ++ 0 :: rest).drop (tail.takeWhile isSeparator).length =
        tail.dropWhile isSeparator ++ 0 :: rest := by
      conv_lhs => rw [← @List.takeWhile_append_dropWhile _ isSeparator tail, List.append_assoc]
      rw [List.drop_left' (by rw [List.takeWhile_append_dropWhile])]
    rw [List.drop_length_add_append, hdrop]
    exact textAt_eq fun b hb => htail b ((List.dropWhile_suffix isSeparator).subset hb)

theorem isSeparator_eq (c : UInt8) : isSeparator c = !isKeyChar c := by
  simp [isSeparator, isKeyChar, bne]

/-- The key goes up to the first separator, and the value from behind the separators to
the end. -/
theorem configSplit_ok (before rest : List UInt8) {body : List UInt8} (hbody : ∀ b ∈ body, b ≠ 0) :
    ∃ line, configSplit (before ++ (body ++ 0 :: rest)) before.length =
        .ok (line, body.takeWhile isKeyChar, (body.dropWhile isKeyChar).dropWhile isSeparator) ∧
      line.length = (before ++ (body ++ 0 :: rest)).length := by
  have hwalk : walk isKeyChar ((before ++ (body ++ 0 :: rest)).drop before.length) before.length =
      .ok (before.length + (body.takeWhile isKeyChar).length) := by
    rw [List.drop_left]
    exact walk_text hbody before.length
  obtain ⟨key, hkey⟩ : ∃ key, body.takeWhile isKeyChar = key := ⟨_, rfl⟩
  obtain ⟨tail, htail⟩ : ∃ tail, body.dropWhile isKeyChar = tail := ⟨_, rfl⟩
  have hsplit : body = key ++ tail := by rw [← hkey, ← htail, List.takeWhile_append_dropWhile]
  obtain ⟨hkeyChars, htailChars⟩ := List.forall_mem_append.mp (hsplit ▸ hbody)
  have hblock : before ++ (body ++ 0 :: rest) = (before ++ key) ++ (tail ++ 0 :: rest) := by
    rw [hsplit, List.append_assoc, List.append_assoc]
  have hp2 : before.length + key.length = (before ++ key).length := List.length_append.symm
  have hread : ∀ more, textAt (((before ++ key) ++ 0 :: more).drop before.length) = .ok key := by
    intro more
    rw [List.append_assoc, List.drop_left]
    exact textAt_eq hkeyChars
  rw [hkey, hp2, hblock] at hwalk
  rw [hkey, htail, hblock]
  simp only [configSplit, hwalk, bind, Except.bind]
  cases tail with
  | nil =>
    obtain ⟨p, hp, hvalue⟩ := value_at (before ++ key) rest htailChars
    rw [List.nil_append] at hp hvalue
    refine ⟨(before ++ key) ++ 0 :: rest, ?_, rfl⟩
    simp only [List.nil_append, load_octet, ne_eq, not_true, if_false, hp, hvalue, hread, pure,
      Except.pure]
  | cons c tail =>
    obtain ⟨hc, htailChars⟩ := List.forall_mem_cons.mp htailChars
    have hne : [c] ≠ [0] := fun h => hc (List.head_eq_of_cons_eq h)
    have hseparator : isSeparator c = true := by
      have hhead := List.head_dropWhile_not isKeyChar (l := body) (by rw [htail]; simp)
      simp only [htail, List.head_cons] at hhead
      rw [isSeparator_eq, hhead, Bool.not_false]
    obtain ⟨p, hp, hvalue⟩ := value_at (before ++ key ++ [0]) rest htailChars
    rw [List.append_assoc _ [0], List.singleton_append] at hp hvalue
    have hlength : (before ++ key ++ [0]).length = (before ++ key).length + 1 :=
      List.length_append
    rw [hlength] at hp
    refine ⟨(before ++ key) ++ 0 :: (tail ++ 0 :: rest), ?_, by simp⟩
    simp only [List.cons_append, load_octet, store_octet, if_pos hne, hp, hvalue, hread, pure,
      Except.pure, List.dropWhile_cons, hseparator, if_true]

/-- What is left of a text with a word begins with a character that is not white space. -/
theorem trimmed_split (hword : ∃ c ∈ text, isSpace c = false) :
    ∃ spaces b body, (∀ c ∈ spaces, isSpace c = true) ∧ isSpace b = false ∧
      trimmed text = b :: body ∧ text.rdropWhile isSpace = spaces ++ trimmed text := by
  obtain ⟨front, c, gone, -, hc, -, hfront⟩ := hasWord_split hword
  have hne : trimmed text ≠ [] := by
    rw [trimmed, Ne, List.dropWhile_eq_nil_iff, hfront]
    intro hall
    exact Bool.false_ne_true (hc.symm.trans (hall c (by simp)))
  obtain ⟨b, body, hbody⟩ := List.exists_cons_of_ne_nil hne
  have hb := List.head_dropWhile_not isSpace (l := text.rdropWhile isSpace) hne
  rw [trimmed] at hbody
  simp only [hbody, List.head_cons] at hb
  exact ⟨_, b, body, fun c hmem => List.mem_takeWhile_imp hmem, hb, hbody,
    List.takeWhile_append_dropWhile.symm⟩

theorem trimmed_subset {b : UInt8} (hb : b ∈ trimmed text) : b ∈ text :=
  (List.rdropWhile_prefix _ _).subset ((List.dropWhile_suffix isSpace).subset hb)

/-- What `fgets` stores is read as a text. -/
theorem configStore_ok (hfit : chunk.length < line.length) :
    ∃ read, store line 0 (chunk ++ [0]) = .ok (upToZero chunk ++ 0 :: read) ∧
      (upToZero chunk ++ 0 :: read).length = line.length := by
  obtain ⟨read, hread⟩ := upToZero_zero chunk (line.drop (chunk.length + 1))
  refine ⟨read, ?_, ?_⟩
  · rw [store_ok (by simp; omega), ← hread, List.take_zero, List.nil_append, List.length_append,
      List.length_singleton, Nat.zero_add, List.append_assoc, List.singleton_append]
  · rw [← hread, List.length_append, List.length_cons, List.length_drop]
    omega

/-- A line with a word is parsed inside of the array. -/
theorem configLine_ok (hfit : chunk.length < line.length) (hword : HasWord chunk) :
    ∃ t, configLine line chunk = .ok (t, lineItem (upToZero chunk)) ∧ t.length = line.length := by
  have htext := upToZero_ne chunk
  obtain ⟨read, hstore, hlength⟩ := configStore_ok hfit
  obtain ⟨after, htrim, hafter⟩ := configTrim_ok read htext hword
  obtain ⟨spaces, b, body, hspaces, hb, hbody, hstripped⟩ := trimmed_split hword
  have hchars : ∀ b ∈ trimmed (upToZero chunk), b ≠ 0 := fun b hb => htext b (trimmed_subset hb)
  rw [hstripped, List.append_assoc] at htrim hafter
  have hstop : ¬ (b ≠ 0 ∧ isSpace b = true) := by simp [hb]
  have hspacesText : ∀ c ∈ spaces, c ≠ 0 ∧ isSpace c = true := by
    intro c hc
    refine ⟨?_, hspaces c hc⟩
    rintro rfl
    exact absurd (hspaces 0 hc) (by decide)
  have hp1 : walk isSpace (spaces ++ (trimmed (upToZero chunk) ++ 0 :: after)) 0 =
      .ok spaces.length := by
    rw [hbody, List.cons_append, walk_stops hspacesText hstop, Nat.zero_add]
  have hfirst : load (spaces ++ (trimmed (upToZero chunk) ++ 0 :: after)) spaces.length 1 =
      .ok [b] := by
    rw [hbody, List.cons_append, load_octet]
  simp only [configLine, hstore, htrim, hp1, hfirst, bind, Except.bind, lineItem]
  by_cases hcomment : b = commentSign
  · refine ⟨_, ?_, hafter.trans hlength⟩
    simp only [hbody, hcomment, List.head?_cons, if_true]
    rfl
  · have hother : ¬ [b] = [commentSign] := fun h => hcomment (List.head_eq_of_cons_eq h)
    have hhead : ¬ (trimmed (upToZero chunk)).head? = some commentSign := by
      rw [hbody, List.head?_cons, Option.some_inj]
      exact hcomment
    obtain ⟨t, hsplit, ht⟩ := configSplit_ok spaces after hchars
    refine ⟨t, ?_, ht.trans (hafter.trans hlength)⟩
    simp only [if_neg hother, hsplit, if_neg hhead]
    rfl

/-- A line without a word is trimmed beyond the front of the array. -/
theorem configLine_leaves (hbad : ¬ (chunk.length < line.length ∧ HasWord chunk)) :
    configLine line chunk = .error .outOfBounds := by
  by_cases hfit : chunk.length < line.length
  swap
  · have hlong : ¬ 0 + (chunk ++ [0]).length ≤ line.length := by
      rw [List.length_append, List.length_singleton]
      omega
    simp only [configLine, store, if_neg hlong, bind, Except.bind]
  have hword : ¬ HasWord chunk := fun hword => hbad ⟨hfit, hword⟩
  have hspace : ∀ c ∈ upToZero chunk, isSpace c = true := by
    intro c hc
    by_contra hother
    exact hword ⟨c, hc, by simpa using hother⟩
  obtain ⟨read, hstore, -⟩ := configStore_ok hfit
  simp only [configLine, hstore, configTrim_leaves read (upToZero_ne chunk) hspace, bind,
    Except.bind]

end Line

section File
variable {contents line : List UInt8}

theorem takeLine_length (room : ℕ) (stream : List UInt8) :
    (takeLine room stream).1.length ≤ room := by
  induction room generalizing stream with
  | zero => exact le_refl 0
  | succ room ih =>
    cases stream with
    | nil => exact Nat.zero_le _
    | cons c stream =>
      rw [takeLine]
      split_ifs with hnewline
      · exact Nat.succ_le_succ (Nat.zero_le room)
      · exact Nat.succ_le_succ (ih stream)

/-- Every call of `fgets` leaves room for the zero. -/
theorem chunk_length (calls : ℕ) (stream : List UInt8) :
    ∀ chunk ∈ configChunks calls stream, chunk.length < maxConfigLine := by
  induction calls generalizing stream with
  | zero => simp [configChunks]
  | succ calls ih =>
    rw [configChunks, fgets]
    split_ifs with hempty
    · simp
    · simp only [List.forall_mem_cons]
      refine ⟨?_, ih _⟩
      have hlength := takeLine_length (maxConfigLine - 1) stream
      rw [maxConfigLine] at hlength ⊢
      omega

/-- The lines are parsed one after the other, each into the same array. -/
theorem chunks_run {chunks : List (List UInt8)}
    (hfit : ∀ chunk ∈ chunks, chunk.length < line.length)
    (hword : ∀ chunk ∈ chunks, HasWord chunk) :
    ∃ t, run configLine line chunks =
      .ok (t, chunks.flatMap fun chunk => lineItem (upToZero chunk)) := by
  induction chunks generalizing line with
  | nil => exact ⟨line, rfl⟩
  | cons chunk chunks ih =>
    obtain ⟨hfirst, hrest⟩ := List.forall_mem_cons.mp hfit
    obtain ⟨hfirstWord, hrestWords⟩ := List.forall_mem_cons.mp hword
    obtain ⟨t, hnow, hlength⟩ := configLine_ok hfirst hfirstWord
    obtain ⟨u, hlater⟩ := ih (hlength ▸ hrest) hrestWords
    exact ⟨u, run_cons_ok hnow hlater⟩

/-- The calls of `config_add_item` for a file whose lines all have a word. -/
theorem load_of_words (hline : line.length = maxConfigLine + 1) (table : KvTable)
    (hword : ∀ chunk ∈ configChunks contents.length contents, HasWord chunk) :
    configLoadFile (some contents) line table = .ok (configAddItems table
      ((configChunks contents.length contents).flatMap fun chunk =>
        lineItem (upToZero chunk))) := by
  have hfit : ∀ chunk ∈ configChunks contents.length contents, chunk.length < line.length := by
    intro chunk hchunk
    have hlength := chunk_length _ _ chunk hchunk
    omega
  obtain ⟨t, hrun⟩ := chunks_run hfit hword
  simp only [configLoadFile, hrun, bind, Except.bind, pure, Except.pure]

/-- Parsing a file stays inside of the array exactly if whatever one call of `fgets` gives
has something else than white space in front of its first zero. -/
theorem parsing_inside_iff (hline : line.length = maxConfigLine + 1) (table : KvTable) :
    (∃ t, configLoadFile (some contents) line table = .ok t) ↔
      ∀ chunk ∈ configChunks contents.length contents, HasWord chunk := by
  constructor
  · rintro ⟨t, hload⟩ chunk hchunk
    by_contra hword
    have hgoes : ∀ line chunk, line.length = maxConfigLine + 1 →
        ¬ ¬ (chunk.length < maxConfigLine + 1 ∧ HasWord chunk) →
        ∃ t items, configLine line chunk = .ok (t, items) ∧ t.length = maxConfigLine + 1 := by
      intro line chunk hline hgood
      obtain ⟨hfit, hword⟩ := not_not.mp hgood
      obtain ⟨t, hparse, ht⟩ := configLine_ok (hline ▸ hfit) hword
      exact ⟨t, _, hparse, ht.trans hline⟩
    have hstops : ∀ line chunk, line.length = maxConfigLine + 1 →
        ¬ (chunk.length < maxConfigLine + 1 ∧ HasWord chunk) →
        configLine line chunk = .error .outOfBounds :=
      fun line chunk hline hbad => configLine_leaves (hline ▸ hbad)
    have hrun := run_stops hgoes hstops hline ⟨chunk, hchunk, fun h => hword h.2⟩
    simp only [configLoadFile, hrun, bind, Except.bind, reduceCtorEq] at hload
  · exact fun hword => ⟨_, load_of_words hline table hword⟩

theorem parsing_inside_iff_comment :
    (List.replicate (maxConfigLine + 1) (0 : UInt8)).length = maxConfigLine + 1 ∧
    ((∃ t, configLoadFile (some [0x23, 0x0a]) (List.replicate (maxConfigLine + 1) 0) Table.empty =
        .ok t) ↔
      ∀ chunk ∈ configChunks 2 [0x23, 0x0a], HasWord chunk) :=
  ⟨List.length_replicate, parsing_inside_iff List.length_replicate Table.empty⟩

/-- The file is one empty line. -/
theorem blank_line_leaves :
    configLoadFile (some [newline]) (List.replicate (maxConfigLine + 1) 0) Table.empty =
      .error .outOfBounds := by
  have hblank : ¬ HasWord [newline] := by
    rintro ⟨c, hc, hword⟩
    rw [List.mem_singleton.mp (show c ∈ [newline] from hc)] at hword
    exact absurd hword (by decide)
  have hchunks : configChunks [newline].length [newline] = [[newline]] := by decide
  simp only [configLoadFile, hchunks, run, configLine_leaves fun h => hblank h.2, bind, Except.bind]

end File

end RaveloxMidi
