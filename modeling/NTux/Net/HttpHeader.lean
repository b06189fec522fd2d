import NTux.Net.HttpAgree

/-!
# What GET makes of a response

The loop over the header looks for the end of each line before `hdr_end`, where the last
line ends, so it never finds the last line (`headerLines_headText`): for a response with
headers, the last one.  `http_understood_iff` says that a response is understood exactly
when it has none.
-/

namespace NTux.Net

/-! ## Responses -/

/-- Bytes of a line of text. -/
def LineText (s : List UInt8) : Prop := ∀ c ∈ s, c ≠ 0 ∧ c ≠ cr ∧ c ≠ lf

/-- A header: its name, and what is behind the colon. -/
structure HttpField where
  name : CString
  rest : CString
  nameText : LineText name
  named : name ≠ []
  noColon : colon ∉ name
  restText : LineText rest

/-- The line of a header. -/
def HttpField.line (f : HttpField) : List UInt8 := f.name ++ colon :: f.rest

def isBlank (c : UInt8) : Bool := c == blank || c == 9

/-- The value of a header, without the blanks around it. -/
def HttpField.value (f : HttpField) : CString :=
  ((f.rest.dropWhile isBlank).reverse.dropWhile isBlank).reverse

/-- A response: the minor version, the digits of the status, its text, headers and body. -/
structure HttpResponse where
  minor : Fin 10
  kind : Fin 10
  tens : Fin 10
  ones : Fin 10
  reason : CString
  fields : List HttpField
  body : List UInt8
  reasonText : LineText reason

/-- The byte of a digit. -/
def digit (d : Fin 10) : UInt8 := 48 + UInt8.ofNat d.val

/-- The first line of a response. -/
def HttpResponse.statusLine (r : HttpResponse) : List UInt8 :=
  ascii "HTTP/1." ++
    digit r.minor :: blank :: digit r.kind :: digit r.tens :: digit r.ones :: blank :: r.reason

/-- Lines with `crlf` between them. -/
def headText : List (List UInt8) → List UInt8
  | [] => []
  | [line] => line
  | line :: next :: lines => line ++ (crlf ++ headText (next :: lines))

/-- The lines of the header. -/
def HttpResponse.lines (r : HttpResponse) : List (List UInt8) :=
  r.statusLine :: r.fields.map HttpField.line

/-- The bytes of a response. -/
def HttpResponse.bytes (r : HttpResponse) : List UInt8 :=
  headText r.lines ++ (crlf ++ crlf ++ r.body)

/-! ## What a response says -/

/-- The header is the only one of its name, in any case of letters. -/
def HttpResponse.Only (r : HttpResponse) (name : CString) (f : HttpField) : Prop :=
  f ∈ r.fields ∧ f.name.map lower = name ∧ ∀ g ∈ r.fields, g.name.map lower = name → g = f

/-- A body in chunks, and what they are put together. -/
inductive Chunked : List UInt8 → List UInt8 → Prop
  | last (size rest : List UInt8) : LineText size → chunkSize size = 0 →
      Chunked (size ++ crlf ++ rest) []
  | chunk (size data : List UInt8) {body content : List UInt8} : LineText size →
      chunkSize size = data.length → data ≠ [] → Chunked body content →
      Chunked (size ++ crlf ++ data ++ crlf ++ body) (data ++ content)

/-- A `Transfer-Encoding` contains `chunked`. -/
def HttpResponse.IsChunked (r : HttpResponse) : Prop :=
  ∃ f ∈ r.fields, f.name.map lower = ascii "transfer-encoding" ∧
    ascii "chunked" <:+: f.value.map lower

/-- The body of a response is what its chunks are put together, or the first bytes of it, as
many as `Content-Length` says. -/
def HttpResponse.Content (r : HttpResponse) (data : List UInt8) : Prop :=
  (r.IsChunked ∧ Chunked r.body data) ∨
    (¬ r.IsChunked ∧
      ((∃ f n, r.Only (ascii "content-length") f ∧ f.value = decimal n ∧ data = r.body.take n) ∨
        (¬ (∃ f ∈ r.fields, f.name.map lower = ascii "content-length") ∧ data = r.body)))

/-- The URL that a `Location` stands for. -/
def target (host location : CString) : CString :=
  if location.head? = some slash then ascii "http://" ++ host ++ location else location

/-- Each header is found; a redirection leads to the URL given; and the body of a response of
status 2xx is delivered. -/
structure Understood (r : HttpResponse) : Prop where
  headers : ∃ i ∈ interpret r.bytes, i.lines.tail = r.fields.map HttpField.line
  redirect : r.kind = 3 → ∀ f, r.Only (ascii "location") f → ∀ host,
    ∃ i ∈ interpret r.bytes, i.redirect.map (nextUrl host) = some (target host f.value)
  body : r.kind = 2 → ∀ data, r.Content data → ∀ server a host path,
    requested server a.url = some (host, path) → (server 0).response = r.bytes →
    httpGet server a =
      deliver (some data) a.cap [⟨host, path, fillRequest 500 (getParts host path)⟩]

/-! ## Cutting -/

theorem cutSeq_skip {sep s : List UInt8} {c : UInt8} (no : ¬ sep.isPrefixOf (c :: s) = true) :
    cutSeq sep (c :: s) = (cutSeq sep s).map fun (a, b) => (c :: a, b) := by
  rw [cutSeq, if_neg no]

theorem cutSeq_line {sep line s : List UInt8} {x : UInt8} (notMem : x ∉ line) :
    cutSeq (x :: sep) (line ++ s) =
      (cutSeq (x :: sep) s).map fun (a, b) => (line ++ a, b) := by
  induction line with
  | nil => simp
  | cons c line ih =>
      rw [List.mem_cons, not_or] at notMem
      rw [List.cons_append, cutSeq_skip, ih notMem.2, Option.map_map]
      · rfl
      · rw [List.isPrefixOf_cons_cons, Bool.and_eq_true]
        exact fun both => notMem.1 (beq_iff_eq.1 both.1)

theorem cutSeq_here (x : UInt8) (sep s : List UInt8) :
    cutSeq (x :: sep) (x :: sep ++ s) = some ([], s) := by
  have here : (x :: sep).isPrefixOf (x :: (sep ++ s)) = true :=
    List.isPrefixOf_iff_prefix.2 (List.prefix_append (x :: sep) s)
  rw [List.cons_append, cutSeq, if_pos here]
  simp

/-- The line before the first `crlf`. -/
theorem cutSeq_crlf {line s : List UInt8} (text : cr ∉ line) :
    cutSeq crlf (line ++ (crlf ++ s)) = some (line, s) := by
  unfold crlf
  rw [cutSeq_line text, cutSeq_here]
  simp

theorem cutSeq_none {line : List UInt8} (text : cr ∉ line) : cutSeq crlf line = none := by
  have eq : cutSeq crlf (line ++ []) = none := by
    unfold crlf
    rw [cutSeq_line text]
    rfl
  rw [List.append_nil] at eq
  exact eq

/-- The header ends at the first empty line. -/
theorem cutSeq_headText (lines : List (List UInt8)) (some : lines ≠ [])
    (text : ∀ l ∈ lines, l ≠ [] ∧ cr ∉ l ∧ lf ∉ l) (body : List UInt8) :
    cutSeq (crlf ++ crlf) (headText lines ++ (crlf ++ crlf ++ body)) =
      .some (headText lines, body) := by
  induction lines with
  | nil => exact absurd rfl some
  | cons line lines ih =>
      obtain ⟨⟨-, noCr, -⟩, rest⟩ := List.forall_mem_cons.1 text
      cases lines with
      | nil =>
          unfold headText crlf
          rw [List.cons_append, cutSeq_line noCr, cutSeq_here]
          simp
      | cons next lines =>
          have later := ih (List.cons_ne_nil _ _) rest
          have step : headText (line :: next :: lines) = line ++ (crlf ++ headText (next :: lines)) :=
            rfl
          -- the line behind this one is not empty
          obtain ⟨c, t, first, notCr⟩ : ∃ c t, headText (next :: lines) = c :: t ∧ c ≠ cr := by
            obtain ⟨nonempty, noCr', -⟩ := rest next (List.mem_cons_self ..)
            cases next with
            | nil => exact absurd rfl nonempty
            | cons c t =>
                have notCr : c ≠ cr := fun eq => noCr' (eq ▸ List.mem_cons_self ..)
                cases lines with
                | nil => exact ⟨c, t, rfl, notCr⟩
                | cons n ls => exact ⟨c, _, rfl, notCr⟩
          rw [step, List.append_assoc, List.append_assoc]
          generalize crlf ++ crlf ++ body = tail at later ⊢
          rw [first] at later ⊢
          unfold crlf at later ⊢
          rw [List.cons_append, List.cons_append, List.nil_append] at later ⊢
          rw [cutSeq_line noCr, List.cons_append, List.cons_append, List.nil_append, cutSeq_skip,
            cutSeq_skip, later]
          · rfl
          · simp [List.isPrefixOf, cr, lf]
          · simp [List.isPrefixOf, notCr.symm]

/-- The loop finds all lines of the header but the last one. -/
theorem headerLines_headText (lines : List (List UInt8)) (text : ∀ l ∈ lines, cr ∉ l)
    (fuel : Nat) (enough : (headText lines).length ≤ fuel) :
    headerLines fuel (headText lines) = lines.dropLast := by
  induction lines generalizing fuel with
  | nil =>
      cases fuel <;> rfl
  | cons line lines ih =>
      obtain ⟨noCr, rest⟩ := List.forall_mem_cons.1 text
      cases lines with
      | nil =>
          cases fuel with
          | zero => rfl
          | succ fuel =>
              unfold headerLines headText
              rw [cutSeq_none noCr]
              rfl
      | cons next lines =>
          have step : headText (line :: next :: lines) = line ++ (crlf ++ headText (next :: lines)) :=
            rfl
          rw [step] at enough ⊢
          rw [List.length_append, List.length_append] at enough
          cases fuel with
          | zero => exact absurd enough (by simp [crlf])
          | succ fuel =>
              unfold headerLines
              rw [cutSeq_crlf noCr]
              dsimp only
              rw [ih rest fuel (by simp [crlf] at enough; omega), List.dropLast_cons_cons]

/-! ## The response -/

theorem digit_spec (d : Fin 10) :
    digit d ≠ 0 ∧ digit d ≠ blank ∧ digit d ≠ cr ∧ digit d ≠ lf ∧ isDigit (digit d) = true := by
  revert d
  decide

theorem HttpResponse.lines_text (r : HttpResponse) : ∀ l ∈ r.lines, l ≠ [] ∧ cr ∉ l ∧ lf ∉ l := by
  refine List.forall_mem_cons.2 ⟨⟨List.cons_ne_nil _ _, ?_⟩, fun l mem => ?_⟩
  · have minor := digit_spec r.minor
    have kind := digit_spec r.kind
    have tens := digit_spec r.tens
    have ones := digit_spec r.ones
    have version : cr ∉ ascii "HTTP/1." ∧ lf ∉ ascii "HTTP/1." := by decide
    have blanks : cr ≠ blank ∧ lf ≠ blank := by decide
    have reason : cr ∉ r.reason ∧ lf ∉ r.reason :=
      ⟨fun mem => (r.reasonText _ mem).2.1 rfl, fun mem => (r.reasonText _ mem).2.2 rfl⟩
    unfold HttpResponse.statusLine
    simp only [List.mem_append, List.mem_cons, not_or]
    exact ⟨⟨version.1, minor.2.2.1.symm, blanks.1, kind.2.2.1.symm, tens.2.2.1.symm,
      ones.2.2.1.symm, blanks.1, reason.1⟩, version.2, minor.2.2.2.1.symm, blanks.2,
      kind.2.2.2.1.symm, tens.2.2.2.1.symm, ones.2.2.2.1.symm, blanks.2, reason.2⟩
  · obtain ⟨f, -, rfl⟩ := List.mem_map.1 mem
    unfold HttpField.line
    simp only [List.mem_append, List.mem_cons, not_or]
    refine ⟨List.append_ne_nil_of_left_ne_nil f.named _, ⟨?_, by decide, ?_⟩, ?_, by decide, ?_⟩
    · exact fun mem => (f.nameText _ mem).2.1 rfl
    · exact fun mem => (f.restText _ mem).2.1 rfl
    · exact fun mem => (f.nameText _ mem).2.2 rfl
    · exact fun mem => (f.restText _ mem).2.2 rfl

/-- What the handler makes of a response. -/
theorem interpret_bytes (r : HttpResponse) :
    interpret r.bytes = some ⟨statusOf r.bytes, r.lines.dropLast,
      r.lines.dropLast.foldl headerLine ⟨-1, false, none⟩, r.body⟩ := by
  have cut := cutSeq_headText r.lines (List.cons_ne_nil _ _) r.lines_text r.body
  have found := headerLines_headText r.lines (fun l mem => (r.lines_text l mem).2.1)
    (headText r.lines).length (Nat.le_refl _)
  unfold interpret
  rw [show cutSeq (crlf ++ crlf) r.bytes = _ from cut, Option.map_some]
  dsimp only
  rw [found]

/-- The number of the status is read as it is written. -/
theorem statusOf_line (r : HttpResponse) (rest : List UInt8) :
    statusOf (r.statusLine ++ rest) = 100 * r.kind.val + 10 * r.tens.val + r.ones.val := by
  obtain ⟨notZero, notBlank, -⟩ := digit_spec r.minor
  have digits : ∀ a b c : Fin 10, digitsInt [digit a, digit b, digit c] =
      100 * a.val + 10 * b.val + c.val := by decide +kernel
  have skip : ∀ t : List UInt8, (ascii "HTTP/1." ++ digit r.minor :: blank :: t).dropWhile
      (fun c => c != 0 && c != blank) = blank :: t := by
    intro t
    have version : ∀ c ∈ ascii "HTTP/1.", (c != 0 && c != blank) = true := by decide +kernel
    rw [List.dropWhile_append_of_pos version, List.dropWhile_cons_of_pos (by simp [notZero, notBlank]),
      List.dropWhile_cons_of_neg (by simp)]
  unfold statusOf HttpResponse.statusLine
  rw [List.append_assoc, List.cons_append, List.cons_append, skip]
  dsimp only
  rw [if_pos rfl, List.cons_append, List.cons_append, List.cons_append, List.cons_append,
    List.takeWhile_cons_of_pos (digit_spec _).2.2.2.2,
    List.takeWhile_cons_of_pos (digit_spec _).2.2.2.2,
    List.takeWhile_cons_of_pos (digit_spec _).2.2.2.2, List.takeWhile_cons_of_neg (by decide)]
  exact digits r.kind r.tens r.ones

/-- GET delivers what it makes of a response of status 2xx. -/
theorem httpGet_answer {server : Nat → Exchange} {a : HttpArgs} {host path : CString}
    (some' : requested server a.url = some (host, path)) {i : Interpreted}
    (answer : interpret (server 0).response = some i) (ok : 200 ≤ i.status ∧ i.status < 300) :
    httpGet server a =
      deliver i.content a.cap [⟨host, path, fillRequest 500 (getParts host path)⟩] := by
  obtain ⟨p, kind, split, works⟩ := requested_some some'
  have stays : i.redirect = none := if_neg (by omega)
  unfold httpGet getLoop
  rw [kind]
  dsimp only
  rw [split]
  dsimp only
  rw [if_neg works, answer]
  dsimp only
  rw [stays]
  dsimp only
  rw [if_pos ok]
  rfl

/-- **GET understands a response exactly when the response has no headers.** -/
theorem http_understood_iff (r : HttpResponse) : Understood r ↔ r.fields = [] := by
  have read := interpret_bytes r
  constructor
  · intro understood
    obtain ⟨i, mem, all⟩ := understood.headers
    obtain rfl := Option.some.inj (read.symm.trans mem)
    have count := congrArg List.length all
    simp only [HttpResponse.lines, List.length_tail, List.length_dropLast, List.length_cons,
      List.length_map] at count
    exact List.length_eq_zero_iff.1 (by omega)
  · intro none'
    have lines : r.lines = [r.statusLine] := by rw [HttpResponse.lines, none', List.map_nil]
    rw [lines] at read
    refine ⟨⟨_, read, by rw [none']; rfl⟩, fun _ f only => ?_, fun kind data content => ?_⟩
    · have mem := only.1
      rw [none'] at mem
      cases mem
    · have whole : data = r.body := by
        rcases content with ⟨⟨f, mem, -⟩, -⟩ | ⟨-, ⟨f, n, only, -⟩ | ⟨-, eq⟩⟩
        · rw [none'] at mem
          cases mem
        · have mem := only.1
          rw [none'] at mem
          cases mem
        · exact eq
      have status : statusOf r.bytes = 100 * r.kind.val + 10 * r.tens.val + r.ones.val := by
        rw [HttpResponse.bytes, lines]
        exact statusOf_line r _
      intro server a host path sent response
      rw [← response] at read
      have tens := r.tens.isLt
      have ones := r.ones.isLt
      have two : r.kind.val = 2 := congrArg Fin.val kind
      rw [httpGet_answer sent read (by dsimp only; rw [response, status]; omega), whole]
      rfl

/-- `Content-Length: 1`. -/
def lengthOne : HttpField :=
  ⟨ascii "Content-Length", ascii " 1", by unfold LineText; decide +kernel, by decide +kernel,
    by decide +kernel, by unfold LineText; decide +kernel⟩

/-- A response with a body of two letters, and that header. -/
def lengthResponse : HttpResponse :=
  ⟨1, 2, 0, 0, ascii "OK", [lengthOne], ascii "hi", by unfold LineText; decide +kernel⟩

/-- The only header is not found, and both letters are delivered. -/
theorem http_not_understood : ¬ ∀ r, Understood r := by
  intro all
  have named : ∀ f ∈ lengthResponse.fields, f = lengthOne := fun f mem => List.mem_singleton.1 mem
  have plain : ¬ lengthResponse.IsChunked := by
    rintro ⟨f, mem, eq, -⟩
    rw [named f mem] at eq
    exact absurd eq (by decide)
  have content : lengthResponse.Content (ascii "h") :=
    .inr ⟨plain, .inl ⟨lengthOne, 1,
      ⟨List.mem_singleton_self _, by decide, fun f mem _ => named f mem⟩, by decide, by decide⟩⟩
  have delivered := (all lengthResponse).body rfl _ content
    (fun _ => ⟨fun _ => true, true, [lengthResponse.bytes]⟩) hiArgs (ascii "h") [slash]
    (by decide +kernel) (by decide +kernel)
  have rax := congrArg (Option.map Reply.rax) delivered
  exact absurd rax (by decide +kernel)

end NTux.Net
