import GManager.TextBlocks
import GManager.Utf8

/-!
# Reading server-sent events

`consumeSse`: the chunks of a stream are decoded, line ends are unified over the text that is not read yet,
and complete events are cut off at blank lines. An event of the asked name that has data is handed to
`emit`; when that throws, the stream is given up.
-/

namespace GManager.Sse

/-- A string of the browser, as its characters. -/
abbrev Text := List Char

/-- White space and line terminators of the language. -/
def isWhite (c : Char) : Bool :=
  c ∈ ['\t', '\n', '\x0b', '\x0c', '\r', ' ', '\u00a0', '\u1680', '\u2028', '\u2029', '\u202f', '\u205f',
    '\u3000', '\ufeff'] || ('\u2000' ≤ c && c ≤ '\u200a')

def trimStart (s : Text) : Text := s.dropWhile isWhite

def trimText (s : Text) : Text := (trimStart (trimStart s).reverse).reverse

/-- The decoder of a stream; it drops a byte order mark at the start. -/
structure TextDecoder where
  utf8 : Utf8Decoder
  bomSeen : Bool
  deriving DecidableEq, Repr

namespace TextDecoder

def decode (d : TextDecoder) (bytes : List UInt8) : TextDecoder × Text :=
  let decoded := d.utf8.decode bytes
  if d.bomSeen then (⟨decoded.1, true⟩, decoded.2)
  else
    match decoded.2 with
    | [] => (⟨decoded.1, false⟩, [])
    | c :: cs => (⟨decoded.1, true⟩, if c = '\ufeff' then cs else c :: cs)

end TextDecoder

/-- The arguments of a call of `emit`. -/
structure Emission where
  id : Option Text
  data : Text
  deriving DecidableEq, Repr

/-- The value of the first line of a field. -/
def fieldOf (lines : List Text) (field : Text) : Option Text :=
  (lines.find? fun line => field.isPrefixOf line).map fun line => trimText (line.drop field.length)

def dataOf (lines : List Text) : Text :=
  ['\n'].intercalate ((lines.filter fun line => "data:".toList.isPrefixOf line).map fun line =>
    trimStart (line.drop 5))

/-- What is emitted for a block. -/
def readBlock (eventName : Text) (block : Text) : Option Emission :=
  let lines := block.splitOn '\n'
  if fieldOf lines "event:".toList = some eventName ∧ dataOf lines ≠ [] then
    some ⟨fieldOf lines "id:".toList, dataOf lines⟩
  else none

/-- The calls up to the first that throws. -/
def deliver (returns : Emission → Bool) : List Emission → List Emission
  | [] => []
  | e :: es => e :: if returns e then deliver returns es else []

structure Reader where
  decoder : TextDecoder
  buffer : Text
  calls : List Emission
  thrown : Bool
  deriving DecidableEq, Repr

namespace Reader

def init : Reader := ⟨⟨.start, false⟩, [], [], false⟩

/-- One chunk of the stream. -/
def read (returns : Emission → Bool) (eventName : Text) (r : Reader) (value : List UInt8) : Reader :=
  if r.thrown then r
  else
    let decoded := r.decoder.decode value
    let blocks := blocksOf (unixLines (r.buffer ++ decoded.2))
    let calls := deliver returns (blocks.1.filterMap (readBlock eventName))
    ⟨decoded.1, blocks.2, r.calls ++ calls, calls.any fun e => ¬ returns e⟩

end Reader

/-- `consumeSse`: the calls of `emit`. -/
def consumeSse (returns : Emission → Bool) (eventName : Text) (chunks : List (List UInt8)) : List Emission :=
  (chunks.foldl (Reader.read returns eventName) .init).calls

/-! ### The serialised form -/

inductive Field
  | comment | id | event | data
  deriving DecidableEq, Repr

namespace Field

def text : Field → Text
  | comment => ":".toList
  | id => "id:".toList
  | event => "event:".toList
  | data => "data:".toList

end Field

/-- A line of the format; a space may follow the colon. -/
structure Line where
  field : Field
  space : Bool
  value : Text
  plain : '\n' ∉ value ∧ '\r' ∉ value

namespace Line

def text (l : Line) : Text := l.field.text ++ ((if l.space then [' '] else []) ++ l.value)

end Line

/-- The values of the lines of a field. -/
def valuesOf (lines : List Line) (field : Field) : List Text :=
  (lines.filter fun l => l.field = field).map Line.value

/-- An event; white space around an identifier or a name is not kept. -/
structure Event where
  id : Option Text
  name : Text
  data : Text
  id_trimmed : ∀ v ∈ id, trimText v = v
  name_trimmed : trimText name = name
  data_ne : data ≠ []
  data_lines : ∀ line ∈ data.splitOn '\n', trimStart line = line

/-- The lines up to a blank line: those of an event, with comments among them, or lines without data. -/
inductive Block
  | event (e : Event) (lines : List Line) (id : valuesOf lines .id = e.id.toList)
      (name : valuesOf lines .event = [e.name]) (data : valuesOf lines .data = e.data.splitOn '\n')
  | silent (lines : List Line) (ne : lines ≠ []) (silent : valuesOf lines .data = [])

namespace Block

def lines : Block → List Line
  | event _ lines .. | silent lines .. => lines

def event? : Block → Option Event
  | event e .. => some e
  | silent .. => none

/-- The block without its blank line. -/
def text (b : Block) : Text := ['\n'].intercalate (b.lines.map Line.text)

end Block

/-- The stream, with line feeds. -/
def streamText (blocks : List Block) : Text := blocks.flatMap fun b => b.text ++ ['\n', '\n']

def crlfLines (text : Text) : Text := text.flatMap fun c => if c = '\n' then ['\r', '\n'] else [c]

/-- The bytes of the stream, with either line end. -/
def serialise (crlf : Bool) (blocks : List Block) : List UInt8 :=
  (if crlf then crlfLines (streamText blocks) else streamText blocks).flatMap String.utf8EncodeChar

/-! ### Chunks -/

section chunks

variable {d : TextDecoder} {xs ys : List UInt8}

variable {u : Utf8Decoder} {c : Char} {cs : Text}

theorem TextDecoder.decode_seen : decode ⟨u, true⟩ xs = (⟨(u.decode xs).1, true⟩, (u.decode xs).2) := rfl

theorem TextDecoder.decode_nil (h : (u.decode xs).2 = []) :
    decode ⟨u, false⟩ xs = (⟨(u.decode xs).1, false⟩, []) := by
  simp [decode, h]

theorem TextDecoder.decode_cons (h : (u.decode xs).2 = c :: cs) :
    decode ⟨u, false⟩ xs = (⟨(u.decode xs).1, true⟩, if c = '\ufeff' then cs else c :: cs) := by
  simp [decode, h]

theorem TextDecoder.decode_append : d.decode (xs ++ ys) =
    (((d.decode xs).1.decode ys).1, (d.decode xs).2 ++ ((d.decode xs).1.decode ys).2) := by
  obtain ⟨u, seen⟩ := d
  have happend : u.decode (xs ++ ys) = _ := Utf8Decoder.decode_append
  cases seen with
  | true => rw [decode_seen, decode_seen, decode_seen, happend]
  | false =>
    cases hxs : (u.decode xs).2 with
    | nil =>
      rw [decode_nil hxs, List.nil_append]
      cases hys : ((u.decode xs).1.decode ys).2 with
      | nil => rw [decode_nil hys, decode_nil (by rw [happend, hxs, hys]; rfl), happend]
      | cons c cs =>
        have hout : (u.decode (xs ++ ys)).2 = c :: cs := by rw [happend, hxs, hys]; rfl
        rw [decode_cons hys, decode_cons hout, happend]
    | cons c cs =>
      have hout : (u.decode (xs ++ ys)).2 = c :: (cs ++ ((u.decode xs).1.decode ys).2) := by
        rw [happend, hxs]; rfl
      rw [decode_cons hxs, decode_seen, decode_cons hout, happend]
      split_ifs <;> rfl

/-- The texts of the chunks. -/
def texts : TextDecoder → List (List UInt8) → List Text
  | _, [] => []
  | d, chunk :: chunks => (d.decode chunk).2 :: texts (d.decode chunk).1 chunks

theorem texts_flatten (d : TextDecoder) (chunks : List (List UInt8)) :
    (texts d chunks).flatten = (d.decode chunks.flatten).2 := by
  induction chunks generalizing d with
  | nil => obtain ⟨u, seen⟩ := d; cases seen <;> rfl
  | cons chunk chunks ih => rw [texts, List.flatten_cons, ih, List.flatten_cons, TextDecoder.decode_append]

theorem decode_encode {text : Text} (h : text.head? ≠ some '\ufeff') :
    (TextDecoder.decode ⟨.start, false⟩ (text.flatMap String.utf8EncodeChar)).2 = text := by
  rw [TextDecoder.decode, Utf8Decoder.decode_encode]
  cases text with
  | nil => rfl
  | cons c cs =>
    have hc : c ≠ '\ufeff' := fun hc => h (by rw [hc]; rfl)
    simp [hc]

end chunks

section calls

variable {returns : Emission → Bool} {eventName : Text} {es es' : List Emission}

theorem deliver_append : deliver returns (es ++ es') =
    deliver returns es ++ if (deliver returns es).any (fun e => ¬ returns e) then []
    else deliver returns es' := by
  induction es with
  | nil => simp [deliver]
  | cons e es ih =>
    cases he : returns e with
    | false => simp [deliver, he]
    | true => simp [deliver, he, ih]

theorem deliver_of_forall (h : ∀ e ∈ es, returns e) : deliver returns es = es := by
  induction es with
  | nil => rfl
  | cons e es ih =>
    obtain ⟨he, hes⟩ := List.forall_mem_cons.1 h
    rw [deliver, if_pos he, ih hes]

theorem foldl_read_of_thrown {r : Reader} (h : r.thrown = true) (chunks : List (List UInt8)) :
    chunks.foldl (Reader.read returns eventName) r = r := by
  induction chunks with
  | nil => rfl
  | cons chunk chunks ih => rw [List.foldl_cons, Reader.read, if_pos h, ih]

/-- The calls are those for the blocks of all chunks. -/
theorem foldl_read {r : Reader} (h : r.thrown = false) (chunks : List (List UInt8)) :
    (chunks.foldl (Reader.read returns eventName) r).calls =
      r.calls ++ deliver returns
        ((readPieces r.buffer (texts r.decoder chunks)).filterMap (readBlock eventName)) := by
  induction chunks generalizing r with
  | nil => simp [texts, readPieces, deliver]
  | cons chunk chunks ih =>
    rw [List.foldl_cons, texts, readPieces, List.filterMap_append, deliver_append]
    rw [Reader.read, if_neg (by rw [h]; decide)]
    split
    · rename_i hthrown
      rw [foldl_read_of_thrown hthrown, List.append_nil]
    · rename_i hgoes
      rw [ih (by simpa using hgoes), List.append_assoc]

end calls

/-! ### The serialised stream -/

section serialised

variable {lines : List Line} {blocks : List Block} {b : Block} {l : Line} {ls : List Text} {x y : Text}
  {eventName : Text}

theorem Line.text_ne_nil (l : Line) : l.text ≠ [] := by
  rw [text]
  cases l.field <;> simp [Field.text]

theorem Line.notMem_text (l : Line) : '\n' ∉ l.text ∧ '\r' ∉ l.text := by
  obtain ⟨h₁, h₂⟩ := l.plain
  rw [text]
  cases l.field <;> cases l.space <;> simp [Field.text, h₁, h₂]

/-- Lines that are not empty have no blank line among them. -/
theorem cutBlank_lines (hne : ls ≠ []) (hls : ∀ l ∈ ls, l ≠ [] ∧ '\n' ∉ l) :
    cutBlank (['\n'].intercalate ls ++ '\n' :: '\n' :: y) = some (['\n'].intercalate ls, y) := by
  induction ls with
  | nil => exact absurd rfl hne
  | cons l ls ih =>
    obtain ⟨⟨-, hl⟩, hls⟩ := List.forall_mem_cons.1 hls
    cases ls with
    | nil =>
      rw [List.intercalate_singleton, cutBlank_line hl]
      simp [cutBlank, Prod.map]
    | cons l' ls =>
      obtain ⟨⟨hne', hl'⟩, -⟩ := List.forall_mem_cons.1 hls
      have hnext : ∀ z, l' ++ z ≠ [] ∧ ∀ cs, l' ++ z ≠ '\n' :: cs := fun z => by
        cases l' with
        | nil => exact absurd rfl hne'
        | cons c l' =>
          refine ⟨by simp, fun cs heq => hl' ?_⟩
          rw [(List.cons.inj heq).1]
          exact List.mem_cons_self
      rw [List.intercalate_cons_cons, List.append_assoc, List.append_assoc, cutBlank_line hl,
        List.singleton_append, cutBlank_cons, ih (by simp) hls]
      · simp [Prod.map]
      · intro _ cs heq
        cases ls with
        | nil =>
          rw [List.intercalate_singleton] at heq
          exact (hnext _).2 cs heq
        | cons l'' ls =>
          rw [List.intercalate_cons_cons, List.append_assoc, List.append_assoc] at heq
          exact (hnext _).2 cs heq

theorem Block.lines_ne_nil (b : Block) : b.lines ≠ [] := by
  cases b with
  | event e lines id name data =>
    rintro rfl
    cases name
  | silent lines ne silent => exact ne

theorem Block.forall_text (b : Block) : ∀ l ∈ b.lines.map Line.text, l ≠ [] ∧ '\n' ∉ l := by
  rw [List.forall_mem_map]
  exact fun l _ => ⟨l.text_ne_nil, l.notMem_text.1⟩

theorem blocksOf_streamText (blocks : List Block) :
    blocksOf (streamText blocks) = (blocks.map Block.text, []) := by
  induction blocks with
  | nil => rfl
  | cons b blocks ih =>
    have hcut : cutBlank (streamText (b :: blocks)) = some (b.text, streamText blocks) := by
      rw [streamText, List.flatMap_cons, List.append_assoc]
      exact cutBlank_lines (by simpa using b.lines_ne_nil) b.forall_text
    rw [blocksOf_of_some hcut, ih]
    rfl

theorem notMem_intercalate {c : Char} (hc : c ≠ '\n') (h : ∀ l ∈ ls, c ∉ l) : c ∉ ['\n'].intercalate ls := by
  induction ls with
  | nil => exact List.not_mem_nil
  | cons l ls ih =>
    obtain ⟨hl, hls⟩ := List.forall_mem_cons.1 h
    cases ls with
    | nil => rwa [List.intercalate_singleton]
    | cons l' ls =>
      rw [List.intercalate_cons_cons, List.mem_append, List.mem_append, List.mem_singleton]
      rintro ((hm | hm) | hm)
      · exact hl hm
      · exact hc hm
      · exact ih hls hm

theorem notMem_streamText (blocks : List Block) : '\r' ∉ streamText blocks := by
  intro hm
  obtain ⟨b, -, hb⟩ := List.mem_flatMap.1 hm
  rcases List.mem_append.1 hb with hb | hb
  · refine notMem_intercalate (by decide) ?_ hb
    rw [List.forall_mem_map]
    exact fun l _ => l.notMem_text.2
  · exact absurd hb (by decide)

theorem crlfLines_spec (h : '\r' ∉ x) : unixLines (crlfLines x) = x ∧ CrPaired (crlfLines x) := by
  induction x with
  | nil => exact ⟨rfl, trivial⟩
  | cons c x ih =>
    obtain ⟨h₁, h₂⟩ := ih fun hm => h (List.mem_cons_of_mem _ hm)
    by_cases hc : c = '\n'
    · subst hc
      exact ⟨congrArg _ h₁, rfl, h₂⟩
    · have hcr : c ≠ '\r' := fun heq => h (heq ▸ List.mem_cons_self)
      have hcons : crlfLines (c :: x) = c :: crlfLines x := by simp [crlfLines, hc]
      rw [hcons, unixLines_cons hcr, crPaired_cons hcr, h₁]
      exact ⟨rfl, h₂⟩

/-- The prefix of a field tells its lines from all others. -/
theorem isPrefixOf_text {f : Field} (hf : f ≠ .comment) (l : Line) :
    f.text.isPrefixOf l.text = decide (l.field = f) := by
  rw [Line.text]
  cases f <;> cases l.field <;> simp_all [Field.text, List.isPrefixOf]

theorem trimText_space (x : Text) : trimText (' ' :: x) = trimText x := rfl

theorem trimStart_space (x : Text) : trimStart (' ' :: x) = trimStart x := rfl

theorem fieldOf_text {f : Field} (hf : f ≠ .comment) :
    fieldOf (lines.map Line.text) f.text = (valuesOf lines f).head?.map trimText := by
  rw [fieldOf, valuesOf, List.find?_map, List.head?_map, List.head?_filter, Option.map_map, Option.map_map]
  simp only [Function.comp_def, isPrefixOf_text hf]
  cases hfind : lines.find? fun l => l.field = f with
  | none => rfl
  | some l =>
    have hl : l.field = f := by simpa using List.find?_some hfind
    rw [Option.map_some, Option.map_some, Line.text, hl, List.drop_left]
    cases l.space <;> simp [trimText_space]

theorem dataOf_text : dataOf (lines.map Line.text) = ['\n'].intercalate
    ((valuesOf lines .data).map trimStart) := by
  have hprefix : ∀ l : Line, "data:".toList.isPrefixOf l.text = decide (l.field = .data) :=
    isPrefixOf_text (f := .data) (by decide)
  rw [dataOf, valuesOf, List.filter_map, List.map_map, List.map_map]
  simp only [Function.comp_def, hprefix]
  congr 1
  refine List.map_congr_left fun l hl => ?_
  have hl : l.field = .data := of_decide_eq_true (List.mem_filter.1 hl).2
  have hdrop : l.text.drop 5 = (if l.space then [' '] else []) ++ l.value := by
    rw [Line.text, hl]
    rfl
  rw [hdrop]
  cases l.space <;> simp [trimStart_space]

theorem Block.splitOn_text (b : Block) : b.text.splitOn '\n' = b.lines.map Line.text :=
  List.splitOn_intercalate _ (fun l hl => (b.forall_text l hl).2) (by simpa using b.lines_ne_nil)

theorem readBlock_event {e : Event} {h₁ : valuesOf lines .id = e.id.toList}
    {h₂ : valuesOf lines .event = [e.name]} {h₃ : valuesOf lines .data = e.data.splitOn '\n'} :
    readBlock eventName (Block.event e lines h₁ h₂ h₃).text = if e.name =
    eventName then some ⟨e.id, e.data⟩ else none := by
  have hname : fieldOf (lines.map Line.text) "event:".toList = some e.name := by
    refine (fieldOf_text (f := .event) (by decide)).trans ?_
    rw [h₂, List.head?_cons, Option.map_some, e.name_trimmed]
  have hid : fieldOf (lines.map Line.text) "id:".toList = e.id := by
    refine (fieldOf_text (f := .id) (by decide)).trans ?_
    rw [h₁]
    cases hid : e.id with
    | none => rfl
    | some v => exact congrArg some (e.id_trimmed v hid)
  have hdata : dataOf (lines.map Line.text) = e.data := by
    rw [dataOf_text, h₃, List.map_congr_left e.data_lines, List.map_id', List.intercalate_splitOn]
  rw [readBlock, Block.splitOn_text]
  simp only [Block.lines, hname, hid, hdata, Option.some.injEq, e.data_ne, ne_eq, not_false_eq_true, and_true]

theorem readBlock_silent {hne : lines ≠ []} {h : valuesOf lines .data = []} :
    readBlock eventName (Block.silent lines hne h).text = none := by
  have hdata : dataOf (lines.map Line.text) = [] := by rw [dataOf_text, h]; rfl
  rw [readBlock, Block.splitOn_text]
  simp only [Block.lines, hdata, ne_eq, not_true_eq_false, and_false, if_false]

/-- The events of a stream with a name, as they are to be emitted. -/
def emissions (eventName : Text) (blocks : List Block) : List Emission :=
  ((blocks.filterMap Block.event?).filter fun e => e.name = eventName).map fun e => ⟨e.id, e.data⟩

theorem filterMap_readBlock (blocks : List Block) :
    (blocks.map Block.text).filterMap (readBlock eventName) = emissions eventName blocks := by
  induction blocks with
  | nil => rfl
  | cons b blocks ih =>
    rw [List.map_cons, List.filterMap_cons, ih]
    cases b with
    | event e lines h₁ h₂ h₃ =>
      rw [readBlock_event]
      by_cases hname : e.name = eventName <;> simp [emissions, Block.event?, hname]
    | silent lines hne h =>
      rw [readBlock_silent]
      rfl

/-- The first character is that of a line. -/
theorem head?_streamText (blocks : List Block) : (streamText blocks).head? ≠ some '\ufeff' := by
  cases blocks with
  | nil => decide
  | cons b blocks =>
    cases hlines : b.lines with
    | nil => exact absurd hlines b.lines_ne_nil
    | cons l lines =>
      have htext : ∃ z, streamText (b :: blocks) = l.field.text ++ z := by
        rw [streamText, List.flatMap_cons, Block.text, hlines, List.map_cons, Line.text]
        cases lines with
        | nil =>
          exact ⟨_, by rw [List.map_nil, List.intercalate_singleton, List.append_assoc, List.append_assoc]⟩
        | cons l' lines =>
          exact ⟨_, by
            rw [List.map_cons, List.intercalate_cons_cons, List.append_assoc, List.append_assoc,
              List.append_assoc, List.append_assoc]⟩
      obtain ⟨z, hz⟩ := htext
      rw [hz]
      cases l.field <;> simp [Field.text]

theorem head?_crlfLines (x : Text) : (crlfLines x).head? = some '\ufeff' → x.head? = some '\ufeff' := by
  cases x with
  | nil => exact id
  | cons c x =>
    rw [crlfLines, List.flatMap_cons]
    split
    · intro h
      exact absurd h (by simp)
    · exact id

end serialised

/-- The calls of `consumeSse` for a stream of events are those for the events of the name, with either line
end and however the bytes are cut into chunks: one for each, up to a call that throws. -/
theorem sse_chunking {blocks : List Block} {crlf : Bool} {chunks : List (List UInt8)}
    (hchunks : chunks.flatten = serialise crlf blocks) (eventName : Text) (returns : Emission → Bool) :
    consumeSse returns eventName chunks = deliver returns (emissions eventName blocks) ∧
      ((∀ e ∈ emissions eventName blocks, returns e) →
        consumeSse returns eventName chunks = emissions eventName blocks) := by
  have hcr := notMem_streamText blocks
  have hhead := head?_streamText blocks
  obtain ⟨text, htext, hhead', hunix, hpaired⟩ :
    ∃ text : Text, serialise crlf blocks = text.flatMap String.utf8EncodeChar ∧
      text.head? ≠ some '\ufeff' ∧ unixLines text = streamText blocks ∧ CrPaired text := by
    cases crlf with
    | false =>
      refine ⟨streamText blocks, rfl, hhead, ?_, ?_⟩
      · simpa [unixLines] using unixLines_append_of_notMem (x := []) hcr
      · simpa [CrPaired] using crPaired_append_of_notMem (x := []) hcr
    | true => exact ⟨crlfLines (streamText blocks), rfl, fun h => hhead (head?_crlfLines _ h),
        crlfLines_spec hcr⟩
  have htexts : (texts ⟨.start, false⟩ chunks).flatten = text := by
    rw [texts_flatten, hchunks, htext, decode_encode hhead']
  have hread : readPieces [] (texts ⟨.start, false⟩ chunks) = blocks.map Block.text := by
    rw [readPieces_eq rfl (fun p q h => absurd h (by simp)) (by rwa [htexts]), htexts, List.nil_append,
      hunix, blocksOf_streamText]
  have hcalls : consumeSse returns eventName chunks = deliver returns (emissions eventName blocks) := by
    rw [consumeSse, foldl_read rfl, Reader.init, List.nil_append, hread, filterMap_readBlock]
  exact ⟨hcalls, fun h => hcalls.trans (deliver_of_forall h)⟩

/-! ### Examples -/

/-- A heartbeat and an event with a character of two bytes. -/
def heartbeatStream : List Block :=
  [.silent [⟨.event, false, "heartbeat".toList, by decide⟩,
    ⟨.comment, false, "keepalive".toList, by decide⟩] (by decide) (by decide),
    .event ⟨some "7".toList, "notification".toList, "č\n2".toList, by decide, by decide, by decide, by decide⟩
      [⟨.id, false, "7".toList, by decide⟩, ⟨.event, false, "notification".toList, by decide⟩,
        ⟨.data, true, "č".toList, by decide⟩, ⟨.data, false, "2".toList, by decide⟩] (by decide)
          (by decide) (by decide)]

/-- Every byte comes in a chunk of its own. -/
theorem sse_chunking_bytes :
    consumeSse (fun _ => true) "notification".toList ((serialise true heartbeatStream).map fun b => [b]) =
    [⟨some "7".toList, "č\n2".toList⟩] := by
  have hchunks : ((serialise true heartbeatStream).map fun b => [b]).flatten =
      serialise true heartbeatStream := by
    rw [← List.flatMap_def, List.flatMap_singleton']
  exact (sse_chunking hchunks _ _).2 fun _ _ => rfl

/-- White space around an identifier is lost. -/
theorem sse_id_trimmed :
    let lines : List Line :=
      [⟨.id, true, "7 ".toList, by decide⟩, ⟨.event, true, "notification".toList, by decide⟩,
        ⟨.data, true, "x".toList, by decide⟩]
    consumeSse (fun _ => true) "notification".toList
      [(['\n'].intercalate (lines.map Line.text) ++ ['\n', '\n']).flatMap String.utf8EncodeChar] ≠
        [⟨(valuesOf lines .id).head?, "x".toList⟩] := by
  decide +kernel

end GManager.Sse
