import HttpServer.Lib.InPlace
import HttpServer.QueryArguments

/-!
Percent-decoding on the buffer it works in. `unescape_buf_raw` reads and writes
the same bytes and stops at a NUL, while it may write NULs and percent signs
itself. Its three callers are shown to leave the left-to-right decoding of the
string, which reads any percent-encoding of a byte string back.
-/
namespace HttpServer
open InPlace

namespace Buffer

/-- `data[i]`; a `std::string` has a NUL behind its last byte. -/
def byteAt (data : Str) (i : Nat) : Char := data.getD i '\x00'

/-- The `switch` of `unescape_buf_raw`: the byte it writes and the bytes it takes. -/
def unescapeByte (data : Str) (size rpos : Nat) : Char × Nat :=
  if byteAt data rpos = '+' then (' ', 1)
  else if byteAt data rpos = '%' ∧ size - rpos > 2 then
    match hexDigitValue (byteAt data (rpos + 1)), hexDigitValue (byteAt data (rpos + 2)) with
    | some hi, some lo => (Char.ofNat ((hi <<< 4 ||| lo) % 256), 3)
    | _, _ => (byteAt data rpos, 1)
  else (byteAt data rpos, 1)

def unescapeTurn (size : Nat) (s : Cursor Char) : Option (Cursor Char) :=
  if s.rpos < size ∧ byteAt s.data s.rpos ≠ '\x00' then
    let e := unescapeByte s.data size s.rpos
    some (s.put e.1 e.2)
  else none

theorem unescapeByte_takes (data : Str) (size rpos : Nat) : 0 < (unescapeByte data size rpos).2 := by
  unfold unescapeByte
  split
  · exact Nat.one_pos
  · split
    · split
      · exact Nat.succ_pos 2
      · exact Nat.one_pos
    · exact Nat.one_pos

theorem unescapeTurn_advances {size : Nat} {s t : Cursor Char}
    (turned : unescapeTurn size s = some t) : s.rpos < size ∧ s.rpos < t.rpos := by
  unfold unescapeTurn at turned
  split at turned
  · rename_i more
    cases turned
    exact ⟨more.1, Nat.lt_add_of_pos_right (unescapeByte_takes s.data size s.rpos)⟩
  · cases turned

def unescapeLoop (size : Nat) (s : Cursor Char) : Cursor Char :=
  match _turned : unescapeTurn size s with
  | none => s
  | some t => unescapeLoop size t
termination_by size - s.rpos
decreasing_by
  have further := unescapeTurn_advances _turned
  omega

def unescapeBufRaw (data : Str) (size : Nat) : Str × Nat :=
  if size = 0 then (data, 0)
  else
    let s := unescapeLoop size (.start data)
    (s.data, s.wpos)

def httpUnescape (val : Str) : Str × Nat :=
  if val = [] then (val, 0)
  else
    let decoded := unescapeBufRaw val val.length
    (resize (decoded.1.set decoded.2 '\x00') decoded.2, decoded.2)

def baseUnescaper (s : Str) (unescaper : Option (Str → Str)) : Str × Nat :=
  if byteAt s 0 = '\x00' then (s, 0)
  else match unescaper with
    | some f => (f s, (f s).length)
    | none => httpUnescape s

def unescapeInArena (value : Str) (userFn : Option (Str → Str)) : Str :=
  if value = [] then value
  else match userFn with
    | none =>
      let decoded := unescapeBufRaw value value.length
      resize decoded.1 decoded.2
    | some f => f value

def Reached (s : Str) : Cursor Char → Prop :=
  Relation.ReflTransGen (fun a b => unescapeTurn s.length a = some b) (.start s)

end Buffer

def hexValue (c : Char) : Option Nat :=
  (['0', '1', '2', '3', '4', '5', '6', '7', '8', '9', 'A', 'B', 'C', 'D', 'E', 'F'].idxOf? c).or
    (['0', '1', '2', '3', '4', '5', '6', '7', '8', '9', 'a', 'b', 'c', 'd', 'e', 'f'].idxOf? c)

/-- The decoding of a text from left to right, without a buffer or an end mark. -/
def percentDecode : Str → Str
  | [] => []
  | '+' :: rest => ' ' :: percentDecode rest
  | '%' :: hi :: lo :: rest =>
    match hexValue hi, hexValue lo with
    | some h, some l => Char.ofNat (16 * h + l) :: percentDecode rest
    | _, _ => '%' :: percentDecode (hi :: lo :: rest)
  | c :: rest => c :: percentDecode rest

def hexDigit (n : Nat) : Char :=
  ['0', '1', '2', '3', '4', '5', '6', '7', '8', '9', 'A', 'B', 'C', 'D', 'E', 'F'].getD n '0'

def percentEncode : Str → Str
  | [] => []
  | c :: rest => '%' :: hexDigit (c.toNat / 16) :: hexDigit (c.toNat % 16) :: percentEncode rest

/-- The first text is a percent-encoding of the second, whichever bytes it
    escapes; a reserved byte does not stand for itself. -/
inductive WrittenAs (reserved : List Char) : Str → Str → Prop where
  | nil : WrittenAs reserved [] []
  | literal {c : Char} {raw text : Str} (free : c ∉ reserved) (rest : WrittenAs reserved raw text) :
      WrittenAs reserved (c :: raw) (c :: text)
  | space {raw text : Str} (rest : WrittenAs reserved raw text) :
      WrittenAs reserved ('+' :: raw) (' ' :: text)
  | escape {hi lo : Char} {h l : Nat} {raw text : Str} (high : hexValue hi = some h)
      (low : hexValue lo = some l) (rest : WrittenAs reserved raw text) :
      WrittenAs reserved ('%' :: hi :: lo :: raw) (Char.ofNat (16 * h + l) :: text)

def decoderBytes : List Char := ['%', '+', '\x00']

structure DecodesTo (s text : Str) : Prop where
  unescaped : Buffer.httpUnescape s = (text, text.length)
  base : Buffer.baseUnescaper s none = (text, text.length)
  arena : Buffer.unescapeInArena s none = text

/-- No write changes a byte that is still to be read, up to the end of the loop. -/
structure ReadsInput (s : Str) : Prop where
  kept : ∀ t, Buffer.Reached s t → t.wpos ≤ t.rpos ∧ t.unread = s.drop t.rpos
  finished : Buffer.Reached s (Buffer.unescapeLoop s.length (.start s))

theorem hexDigits_below : ((List.range 128).all fun n =>
    hexDigitValue (Char.ofNat n) = hexValue (Char.ofNat n) &&
      (hexValue (Char.ofNat n)).all (· < 16)) = true := by
  decide +kernel

variable {c : Char} {s : Str}

theorem not_hexDigit (large : 128 ≤ c.toNat) : hexDigitValue c = none ∧ hexValue c = none := by
  have above {top : Char} (ascii : top.toNat < 128) : ¬ c ≤ top := by
    intro below
    have := UInt32.le_iff_toNat_le.mp (Char.le_def.mp below)
    change c.toNat ≤ top.toNat at this
    omega
  have outside {digits : List Char} (ascii : digits.all (·.toNat < 128) = true) :
      digits.idxOf? c = none := by
    rw [List.idxOf?_eq_none_iff]
    intro listed
    have := List.all_eq_true.mp ascii c listed
    simp at this
    omega
  constructor
  · simp [hexDigitValue, above (show '9'.toNat < 128 by decide),
      above (show 'f'.toNat < 128 by decide), above (show 'F'.toNat < 128 by decide)]
  · rw [hexValue, outside rfl, outside rfl]
    rfl

theorem hexDigitValue_eq (c : Char) : hexDigitValue c = hexValue c := by
  by_cases small : c.toNat < 128
  · have checked := List.all_eq_true.mp hexDigits_below c.toNat (List.mem_range.mpr small)
    simpa using (Bool.and_eq_true_iff.mp checked).1
  · obtain ⟨coded, meant⟩ := not_hexDigit (Nat.not_lt.mp small)
    rw [coded, meant]

theorem hexValue_lt {n : Nat} (digit : hexValue c = some n) : n < 16 := by
  by_cases small : c.toNat < 128
  · have checked := List.all_eq_true.mp hexDigits_below c.toNat (List.mem_range.mpr small)
    have bounded := (Bool.and_eq_true_iff.mp checked).2
    simpa [digit] using bounded
  · rw [(not_hexDigit (Nat.not_lt.mp small)).2] at digit
    cases digit

theorem shifted_digits {hi lo : Nat} (high : hi < 16) (low : lo < 16) :
    (hi <<< 4 ||| lo) % 256 = 16 * hi + lo := by
  rw [Nat.shiftLeft_eq, Nat.mul_comm, ← Nat.two_pow_add_eq_or_of_lt (i := 4) low]
  omega

namespace Buffer

def nextByte : Str → Option (Char × Nat)
  | [] => none
  | '+' :: _ => some (' ', 1)
  | '%' :: hi :: lo :: _ =>
    match hexDigitValue hi, hexDigitValue lo with
    | some h, some l => some (Char.ofNat (16 * h + l), 3)
    | _, _ => some ('%', 1)
  | c :: _ => if c = '\x00' then none else some (c, 1)

theorem takes_nextByte : Takes nextByte := by
  intro text x n read
  unfold nextByte at read
  split at read
  · cases read
  · cases read
    simp
  · split at read
    · cases read
      simp
    · cases read
      simp
  · split at read
    · cases read
    · cases read
      simp

theorem nextByte_cons {c : Char} (plain : c ≠ '%') (rest : Str) :
    nextByte (c :: rest) =
      if c = '+' then some (' ', 1) else if c = '\x00' then none else some (c, 1) := by
  by_cases plus : c = '+'
  · subst plus
    rw [nextByte, if_pos rfl]
  · rw [if_neg plus, nextByte]
    · exact plus
    · intro hi lo tail same
      exact absurd same plain

theorem unescapeBufRaw_reads (text : Str) : HttpServer.unescapeBufRaw text =
    (nextByte text).elim [] fun e => e.1 :: HttpServer.unescapeBufRaw (text.drop e.2) := by
  unfold nextByte
  split
  · rfl
  · rfl
  · rename_i hi lo rest
    rw [HttpServer.unescapeBufRaw]
    cases hexDigitValue hi with
    | none => rfl
    | some h =>
      cases hexDigitValue lo with
      | none => rfl
      | some l => rfl
  · rename_i c rest plus percent
    rw [HttpServer.unescapeBufRaw]
    · split
      · rfl
      · rfl
    · exact plus
    · exact percent

variable {data s : Str} {rpos : Nat}

theorem byteAt_of_drop {text : Str} (unread : data.drop rpos = text) (i : Nat) :
    byteAt data (rpos + i) = byteAt text i := by
  rw [← unread]
  simp [byteAt, List.getD_eq_getElem?_getD, List.getElem?_drop]

theorem nextByte_percent {rest : Str} (unread : data.drop rpos = '%' :: rest) :
    nextByte ('%' :: rest) = some (unescapeByte data data.length rpos) := by
  have left : data.length - rpos = rest.length + 1 := by
    rw [← List.length_drop, unread, List.length_cons]
  have first : byteAt data rpos = '%' := byteAt_of_drop unread 0
  rw [unescapeByte, byteAt_of_drop unread 1, byteAt_of_drop unread 2, first, left,
    if_neg (by decide)]
  match rest with
  | [] => rfl
  | [_] => rfl
  | hi :: lo :: rest =>
    have second : byteAt ('%' :: hi :: lo :: rest) 1 = hi := rfl
    have third : byteAt ('%' :: hi :: lo :: rest) 2 = lo := rfl
    rw [if_pos ⟨rfl, by simp⟩, second, third, nextByte]
    cases high : hexDigitValue hi with
    | none => rfl
    | some h =>
      cases low : hexDigitValue lo with
      | none => rfl
      | some l =>
        rw [hexDigitValue_eq] at high low
        simp only [shifted_digits (hexValue_lt high) (hexValue_lt low)]

theorem nextByte_of_unread {rest : Str} {c : Char} (unread : data.drop rpos = c :: rest)
    (live : c ≠ '\x00') : nextByte (c :: rest) = some (unescapeByte data data.length rpos) := by
  by_cases percent : c = '%'
  · subst percent
    exact nextByte_percent unread
  · have first : byteAt data rpos = c := byteAt_of_drop unread 0
    have other : ¬ (c = '%' ∧ data.length - rpos > 2) := fun escaped => percent escaped.1
    rw [nextByte_cons percent, unescapeByte, first, if_neg other, if_neg live]
    by_cases plus : c = '+'
    · rw [if_pos plus, if_pos plus]
    · rw [if_neg plus, if_neg plus]

theorem runs_unescapeTurn (size : Nat) : Runs nextByte size (unescapeTurn size) := by
  rintro s rfl
  cases unread : s.unread with
  | nil =>
    have read : ¬ s.rpos < s.data.length := by
      have := List.drop_eq_nil_iff.mp unread
      omega
    rw [unescapeTurn, if_neg fun more => read more.1]
    rfl
  | cons c rest =>
    have more : s.rpos < s.data.length := by
      have length := congrArg List.length unread
      rw [Cursor.unread, List.length_drop, List.length_cons] at length
      omega
    have first : byteAt s.data s.rpos = c := byteAt_of_drop unread 0
    rw [unescapeTurn, first]
    by_cases nul : c = '\x00'
    · rw [if_neg fun live => live.2 nul, nextByte_cons (nul ▸ by decide), if_pos nul,
        if_neg (nul ▸ by decide)]
      rfl
    · rw [if_pos ⟨more, nul⟩, nextByte_of_unread unread nul]
      rfl

theorem unescapeLoop_unrolls (size : Nat) (s : Cursor Char) :
    unescapeLoop size s = (unescapeTurn size s).elim s (unescapeLoop size) := by
  rw [unescapeLoop]
  split
  · rename_i stopped
    rw [stopped]
    rfl
  · rename_i turned
    rw [turned]
    rfl

theorem unescapeLoop_follows (s : Str) :
    Follows s (HttpServer.unescapeBufRaw s) (unescapeLoop s.length (.start s)) := by
  have finished := (follows_start s).finish takes_nextByte (runs_unescapeTurn s.length)
    (unescapeLoop_unrolls s.length) unescapeBufRaw_reads
  rwa [List.nil_append] at finished

theorem reached_loop {t : Cursor Char} (reached : Reached s t) :
    Reached s (unescapeLoop s.length t) := by
  induction left : s.length - t.rpos using Nat.strongRecOn generalizing t with
  | ind k ih =>
    rw [unescapeLoop_unrolls]
    cases turned : unescapeTurn s.length t with
    | none => exact reached
    | some u =>
      have further := unescapeTurn_advances turned
      exact ih (s.length - u.rpos) (by omega) (reached.tail turned) rfl

theorem readsInput (s : Str) : ReadsInput s where
  kept t reached := by
    obtain ⟨out, follows⟩ := Follows.reached takes_nextByte (runs_unescapeTurn s.length) reached
    exact ⟨follows.behind, follows.unread⟩
  finished := reached_loop Relation.ReflTransGen.refl

theorem unescapeBufRaw_spec (some_ : s ≠ []) :
    (unescapeBufRaw s s.length).1.take (unescapeBufRaw s s.length).2 =
        HttpServer.unescapeBufRaw s ∧
      (unescapeBufRaw s s.length).2 ≤ (unescapeBufRaw s s.length).1.length := by
  have follows := unescapeLoop_follows s
  have filled : s.length ≠ 0 := fun empty => some_ (List.length_eq_zero_iff.mp empty)
  rw [unescapeBufRaw, if_neg filled]
  refine ⟨follows.written, ?_⟩
  change (unescapeLoop s.length (.start s)).wpos ≤ (unescapeLoop s.length (.start s)).data.length
  rw [follows.size]
  exact Nat.le_trans follows.behind follows.inside

theorem httpUnescape_eq (s : Str) : httpUnescape s =
    (HttpServer.httpUnescape s, (HttpServer.httpUnescape s).length) := by
  by_cases empty : s = []
  · subst empty
    rfl
  · obtain ⟨written, inside⟩ := unescapeBufRaw_spec empty
    have length : (HttpServer.unescapeBufRaw s).length = (unescapeBufRaw s s.length).2 := by
      rw [← written, List.length_take, Nat.min_eq_left inside]
    have left : resize ((unescapeBufRaw s s.length).1.set (unescapeBufRaw s s.length).2 '\x00')
        (unescapeBufRaw s s.length).2 = HttpServer.unescapeBufRaw s := by
      rw [resize_shorter (by rwa [List.length_set]), List.take_set_of_le (Nat.le_refl _), written]
    rw [httpUnescape, if_neg empty]
    exact Prod.ext left length.symm

theorem baseUnescaper_eq (live : s.head? ≠ some '\x00') :
    baseUnescaper s none = (HttpServer.httpUnescape s, (HttpServer.httpUnescape s).length) := by
  cases s with
  | nil => rfl
  | cons c rest =>
    have first : byteAt (c :: rest) 0 ≠ '\x00' := fun nul => live (congrArg some nul)
    rw [baseUnescaper, if_neg first, httpUnescape_eq]

theorem unescapeInArena_eq (s : Str) : unescapeInArena s none = HttpServer.unescapeInArena none s := by
  by_cases empty : s = []
  · subst empty
    rfl
  · obtain ⟨written, inside⟩ := unescapeBufRaw_spec empty
    rw [unescapeInArena, if_neg empty, HttpServer.unescapeInArena, if_neg empty]
    exact (resize_shorter inside).trans written

end Buffer

theorem percentDecode_cons (plain : c ≠ '%') (rest : Str) :
    percentDecode (c :: rest) = (if c = '+' then ' ' else c) :: percentDecode rest := by
  by_cases plus : c = '+'
  · subst plus
    rw [percentDecode, if_pos rfl]
  · rw [if_neg plus, percentDecode]
    · exact plus
    · intro hi lo tail same
      exact absurd same plain

theorem unescapeBufRaw_eq (nulFree : '\x00' ∉ s) : unescapeBufRaw s = percentDecode s := by
  fun_induction percentDecode s with
  | case1 => rfl
  | case2 rest ih =>
    rw [unescapeBufRaw, ih fun later => nulFree (List.mem_cons_of_mem _ later)]
  | case3 hi lo rest h l high low ih =>
    rw [unescapeBufRaw, hexDigitValue_eq, hexDigitValue_eq, high, low]
    exact congrArg _ (ih fun later => nulFree (by simp [later]))
  | case4 hi lo rest invalid ih =>
    have later := ih fun later => nulFree (List.mem_cons_of_mem _ later)
    rw [unescapeBufRaw, hexDigitValue_eq, hexDigitValue_eq, later]
    split
    · rename_i h l high low
      exact (invalid h l high low).elim
    · rfl
  | case5 c rest plus percent ih =>
    obtain ⟨live, later⟩ := List.ne_and_not_mem_of_not_mem_cons nulFree
    rw [unescapeBufRaw, if_neg (Ne.symm live), ih later]
    · exact plus
    · exact percent

theorem length_percentDecode (nulFree : '\x00' ∉ s) : (percentDecode s).length ≤ s.length := by
  rw [← unescapeBufRaw_eq nulFree]
  exact length_unescapeBufRaw s

theorem decodesTo_percentDecode (nulFree : '\x00' ∉ s) : DecodesTo s (percentDecode s) := by
  have live : s.head? ≠ some '\x00' := fun first => nulFree (List.mem_of_mem_head? first)
  have decoded : httpUnescape s = percentDecode s := unescapeBufRaw_eq nulFree
  refine ⟨?_, ?_, ?_⟩
  · rw [Buffer.httpUnescape_eq, decoded]
  · rw [Buffer.baseUnescaper_eq live, decoded]
  · rw [Buffer.unescapeInArena_eq, unescapeInArena_none, unescapeBufRaw_eq nulFree]

namespace WrittenAs
variable {reserved : List Char} {raw text : Str}

theorem decoded (written : WrittenAs reserved raw text) (special : decoderBytes ⊆ reserved) :
    percentDecode raw = text := by
  induction written with
  | nil => rfl
  | @literal c raw text free rest ih =>
    have ordinary : c ∉ decoderBytes := fun listed => free (special listed)
    simp only [decoderBytes, List.mem_cons, List.not_mem_nil, not_or, or_false] at ordinary
    rw [percentDecode_cons ordinary.1, if_neg ordinary.2.1, ih]
  | @space raw text rest ih => rw [percentDecode, ih]
  | @escape hi lo h l raw text high low rest ih => rw [percentDecode, high, low, ih]

theorem absent (written : WrittenAs reserved raw text) {c : Char} (barred : c ∈ reserved)
    (plain : c ≠ '%' ∧ c ≠ '+' ∧ hexValue c = none) : c ∉ raw := by
  have digit {d : Char} {n : Nat} (value : hexValue d = some n) : c ≠ d := by
    rintro rfl
    rw [plain.2.2] at value
    cases value
  induction written with
  | nil => exact List.not_mem_nil
  | @literal d raw text free rest ih =>
    exact List.not_mem_cons_of_ne_of_not_mem (fun same => free (same ▸ barred)) ih
  | @space raw text rest ih => exact List.not_mem_cons_of_ne_of_not_mem plain.2.1 ih
  | @escape hi lo h l raw text high low rest ih =>
    simp only [List.mem_cons, not_or]
    exact ⟨plain.1, digit high, digit low, ih⟩

theorem decoded_buf (written : WrittenAs reserved raw text) (special : decoderBytes ⊆ reserved) :
    '\x00' ∉ raw ∧ unescapeBufRaw raw = text := by
  have nulFree := written.absent (special (by decide)) (show _ ∧ _ ∧ hexValue '\x00' = none by decide)
  exact ⟨nulFree, (unescapeBufRaw_eq nulFree).trans (written.decoded special)⟩

end WrittenAs

theorem hexValue_hexDigit {n : Nat} (small : n < 16) : hexValue (hexDigit n) = some n := by
  have checked : ((List.range 16).all fun n => hexValue (hexDigit n) = some n) = true := by decide
  simpa using List.all_eq_true.mp checked n (List.mem_range.mpr small)

theorem percentEncode_written {b : Str} (bytes : ∀ c ∈ b, c.toNat < 256) :
    WrittenAs decoderBytes (percentEncode b) b := by
  induction b with
  | nil => exact WrittenAs.nil
  | cons c rest ih =>
    obtain ⟨first, later⟩ := List.forall_mem_cons.mp bytes
    have escaped := (ih later).escape (hexValue_hexDigit (show c.toNat / 16 < 16 by omega))
      (hexValue_hexDigit (show c.toNat % 16 < 16 by omega))
    rwa [Nat.div_add_mod, Char.ofNat_toNat] at escaped

/-- All decoders compute the left-to-right decoding of a string without a NUL,
    from bytes they have not changed, and read every encoding of a byte string
    back. -/
theorem percent_decoding_is_uniform :
    (∀ s : Str, '\x00' ∉ s →
      DecodesTo s (percentDecode s) ∧ (percentDecode s).length ≤ s.length ∧ ReadsInput s) ∧
    ∀ b : Str, (∀ c ∈ b, c.toNat < 256) →
      DecodesTo (percentEncode b) b ∧ ∀ raw, WrittenAs decoderBytes raw b → DecodesTo raw b := by
  have readBack {raw b : Str} (written : WrittenAs decoderBytes raw b) : DecodesTo raw b := by
    have decodes := decodesTo_percentDecode (written.decoded_buf (List.Subset.refl _)).1
    rwa [written.decoded (List.Subset.refl _)] at decodes
  refine ⟨fun s nulFree => ?_, fun b bytes => ?_⟩
  · exact ⟨decodesTo_percentDecode nulFree, length_percentDecode nulFree, Buffer.readsInput s⟩
  · exact ⟨readBack (percentEncode_written bytes), fun raw written => readBack written⟩

theorem decoded_signs_are_not_read_again :
    DecodesTo "%2541+%00%4g".toList ['%', '4', '1', ' ', '\x00', '%', '4', 'g'] ∧
      DecodesTo (percentEncode ['\x00', '%', 'ÿ']) ['\x00', '%', 'ÿ'] :=
  ⟨(percent_decoding_is_uniform.1 "%2541+%00%4g".toList (by decide)).1,
    (percent_decoding_is_uniform.2 ['\x00', '%', 'ÿ'] (by simp)).1⟩

end HttpServer
