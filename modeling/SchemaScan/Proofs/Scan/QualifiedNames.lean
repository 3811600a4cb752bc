import Mathlib.Algebra.GroupWithZero.Nat
import SchemaScan.Proofs.Scan.Refusals
import SchemaScan.Proofs.Scan.Spellings

/-! # Qualified names

A name may be qualified by segments with periods behind them. At every place of a source there is one way to
read such a name, and a scanner that takes it hands on the segments and periods, keeps the last segment pending,
and says what it is if it is one.
-/
namespace SchemaScan

namespace Utf8

/-- The bytes of a text. -/
def encode (text : String) : List UInt8 := text.toList.flatMap String.utf8EncodeChar

end Utf8

open Utf8

/-- The bytes are the segments and `last`, joined by periods, and then `rest`. No segment is empty. Where `last` ends,
there is no name character, and a period only if there are no characters to be qualified. -/
structure Qualified (bytes : List UInt8) (segments : List String) (last : String) (rest : List UInt8) : Prop where
  written : bytes = encode (".".intercalate (segments ++ [last])) ++ rest
  names : ∀ s ∈ segments, s ≠ "" ∧ ∀ c ∈ s.toList, isNameContinue c = true
  name : ∀ c ∈ last.toList, isNameContinue c = true
  longest : (Rune.first rest).any isNameContinue = false
  ends : Rune.first rest = some '.' → last = ""

/-- The items of the segments of a name and of the periods behind them; the first segment starts at `start`. -/
def segmentItems (base line : Nat) : Nat → List String → List Item
  | _, [] => []
  | start, s :: segments =>
    let stop := start + (encode s).length
    ⟨.ofName s, base + start, s, line⟩ :: ⟨.mark .period, base + stop, ".", line⟩ ::
      segmentItems base line (stop + 1) segments

/-! ## Reading segments -/

theorem text_map_scalar (s : String) : Rune.text (s.toList.map .scalar) = s := by
  rw [Rune.text_scalars, String.ofList_toList]

theorem first_period_cons (bytes : List UInt8) : Rune.first (0x2E :: bytes) = some '.' := by
  have := Rune.read_encode_append '.' bytes
  rw [show String.utf8EncodeChar '.' ++ bytes = 0x2E :: bytes from rfl] at this
  rw [Rune.first, this]
  rfl

theorem read_period_cons (bytes : List UInt8) : Rune.read (0x2E :: bytes) = .scalar '.' :: Rune.read bytes :=
  Rune.read_encode_append '.' bytes

/-- Name characters with none behind them are read as a segment. -/
theorem segment_read {s : String} {rest : List UInt8} (hs : ∀ c ∈ s.toList, isNameContinue c = true)
    (hlongest : (Rune.first rest).any isNameContinue = false) :
    NameSegment.read (Rune.read (encode s ++ rest)) = ⟨decide (s ≠ "" ∧ (Rune.first rest).all NameSegment.isTerminator),
      s.toList.map .scalar, Rune.read rest⟩ := by
  rw [encode, Rune.read_scalars_append]
  obtain ⟨hrun, hafter⟩ := Rune.run_of_all (Rune.forall_mem_scalars hs) hlongest
  rw [NameSegment.read, hrun, hafter]
  have hends : NameSegment.endsBefore (Rune.read rest) = (Rune.first rest).all NameSegment.isTerminator := by
    rw [Rune.first]
    cases Rune.read rest <;> rfl
  simp [hends]

/-- The name characters that the bytes begin with. -/
theorem exists_name (bytes : List UInt8) : ∃ name rest, bytes = encode name ++ rest ∧
    (∀ c ∈ name.toList, isNameContinue c = true) ∧ (Rune.first rest).any isNameContinue = false := by
  have hrun : Rune.read bytes = Rune.run isNameContinue (Rune.read bytes) ++
      Rune.afterRun isNameContinue (Rune.read bytes) := (Rune.run_append_afterRun ..).symm
  generalize htaken : Rune.run isNameContinue (Rune.read bytes) = taken at hrun
  generalize hleft : Rune.afterRun isNameContinue (Rune.read bytes) = left at hrun
  have hname (r : Rune) (hr : r ∈ taken) : isNameContinue r.char = true := by
    rw [← htaken] at hr
    exact Rune.of_mem_run hr
  -- a byte that begins no character is none of a name
  have hscalar : taken = (taken.map Rune.char).map .scalar := by
    rw [List.map_map]
    refine (List.map_id' taken).symm.trans (List.map_congr_left fun r hr => ?_)
    have hr := hname r hr
    cases r with
    | scalar c => rfl
    | stray b => exact absurd hr (by rw [Rune.char, isNameContinue_replacement]; exact Bool.false_ne_true)
  have hdrop := Rune.read_drop hrun
  have hbytes : bytes = encode (String.ofList (taken.map Rune.char)) ++ bytes.drop (Rune.span taken) := by
    have htake : bytes.take (Rune.span taken) = taken.flatMap Rune.bytes := by
      conv_lhs => rw [← Rune.flatMap_bytes_read bytes, hrun, List.flatMap_append]
      rw [← Rune.length_flatMap_bytes, List.take_left]
    rw [encode, String.toList_ofList, ← Rune.flatMap_bytes_scalars, ← hscalar, ← htake, List.take_append_drop]
  refine ⟨_, _, hbytes, ?_, ?_⟩
  · intro c hc
    rw [String.toList_ofList, List.mem_map] at hc
    obtain ⟨r, hr, rfl⟩ := hc
    exact hname r hr
  · rw [Rune.first, hdrop, ← hleft]
    have hstop := List.head?_dropWhile_not (isNameContinue ·.char) (Rune.read bytes)
    rw [Rune.afterRun]
    cases hhead : (List.dropWhile (isNameContinue ·.char) (Rune.read bytes)).head? with
    | none => rfl
    | some r =>
      rw [hhead] at hstop
      exact hstop

/-- The name characters that bytes begin with are determined. -/
theorem eq_of_encode_append {s s' : String} {rest rest' : List UInt8}
    (hs : ∀ c ∈ s.toList, isNameContinue c = true) (hs' : ∀ c ∈ s'.toList, isNameContinue c = true)
    (hlongest : (Rune.first rest).any isNameContinue = false)
    (hlongest' : (Rune.first rest').any isNameContinue = false)
    (h : encode s ++ rest = encode s' ++ rest') : s = s' ∧ rest = rest' := by
  have hread := segment_read hs hlongest
  rw [h, segment_read hs' hlongest'] at hread
  have htaken : s'.toList.map Rune.scalar = s.toList.map Rune.scalar := congrArg Reading.taken hread
  have hinj : Function.Injective Rune.scalar := fun a b hab => by cases hab; rfl
  obtain rfl := String.toList_inj.mp (List.map_injective_iff.mpr hinj htaken)
  exact ⟨rfl, List.append_cancel_left h⟩

/-- Only a period is read as a period. -/
theorem exists_of_first_period {bytes : List UInt8} (h : Rune.first bytes = some '.') :
    ∃ rest, bytes = 0x2E :: rest := by
  cases hread : Rune.read bytes with
  | nil => simp [Rune.first, hread] at h
  | cons r rest =>
    obtain ⟨tail, rfl, -⟩ := Rune.read_cons hread
    have hr : r = .scalar '.' := by
      refine Rune.eq_scalar_of_char ?_ (by decide)
      simpa [Rune.first, hread] using h
    exact ⟨tail, by rw [hr]; rfl⟩

namespace Qualified

variable {bytes rest : List UInt8} {s last : String} {segments : List String}

theorem nil_iff : Qualified bytes [] last rest ↔ bytes = encode last ++ rest ∧
    (∀ c ∈ last.toList, isNameContinue c = true) ∧ (Rune.first rest).any isNameContinue = false ∧
      (Rune.first rest = some '.' → last = "") := by
  have hwritten : ".".intercalate ([] ++ [last]) = last := String.intercalate_singleton
  constructor
  · intro h
    exact ⟨hwritten ▸ h.written, h.name, h.longest, h.ends⟩
  · rintro ⟨hbytes, hlast, hlongest, hends⟩
    exact ⟨hwritten.symm ▸ hbytes, by simp, hlast, hlongest, hends⟩

theorem cons_iff : Qualified bytes (s :: segments) last rest ↔ ∃ more, bytes = encode s ++ 0x2E :: more ∧
    s ≠ "" ∧ (∀ c ∈ s.toList, isNameContinue c = true) ∧ Qualified more segments last rest := by
  have hwritten : encode (".".intercalate (s :: segments ++ [last])) ++ rest =
      encode s ++ 0x2E :: (encode (".".intercalate (segments ++ [last])) ++ rest) := by
    rw [List.cons_append, String.intercalate_cons_of_ne_nil (by simp), encode, String.toList_append,
      String.toList_append, List.flatMap_append, List.flatMap_append, List.append_assoc, List.append_assoc]
    rfl
  constructor
  · intro h
    obtain ⟨⟨hne, hs⟩, hsegments⟩ := List.forall_mem_cons.mp h.names
    exact ⟨_, h.written.trans hwritten, hne, hs, rfl, hsegments, h.name, h.longest, h.ends⟩
  · rintro ⟨more, rfl, hne, hs, h⟩
    exact ⟨h.written ▸ hwritten.symm, List.forall_mem_cons.mpr ⟨⟨hne, hs⟩, h.names⟩, h.name, h.longest, h.ends⟩

/-- All bytes can be read in this way, though there may be no name. -/
theorem exists_of_bytes (bytes : List UInt8) : ∃ segments last rest, Qualified bytes segments last rest := by
  obtain ⟨name, rest, hbytes, hname, hlongest⟩ := exists_name bytes
  by_cases hqualifies : Rune.first rest = some '.' ∧ name ≠ ""
  · obtain ⟨more, rfl⟩ := exists_of_first_period hqualifies.1
    have hshorter : more.length < bytes.length := by
      rw [hbytes, List.length_append, List.length_cons]
      omega
    obtain ⟨segments, last, rest, h⟩ := exists_of_bytes more
    exact ⟨name :: segments, last, rest, cons_iff.mpr ⟨more, hbytes, hqualifies.2, hname, h⟩⟩
  · refine ⟨[], name, rest, nil_iff.mpr ⟨hbytes, hname, hlongest, fun hperiod => ?_⟩⟩
    by_contra hne
    exact hqualifies ⟨hperiod, hne⟩
termination_by bytes.length

/-- There is one way to read them. -/
theorem unique {segments' : List String} {last' : String} {rest' : List UInt8}
    (h : Qualified bytes segments last rest) (h' : Qualified bytes segments' last' rest') :
    segments' = segments ∧ last' = last ∧ rest' = rest := by
  have hperiod (more : List UInt8) : (Rune.first (0x2E :: more)).any isNameContinue = false := by
    rw [first_period_cons]
    decide
  induction segments generalizing bytes segments' with
  | nil =>
    obtain ⟨hbytes, hlast, hlongest, hends⟩ := nil_iff.mp h
    cases segments' with
    | nil =>
      obtain ⟨hbytes', hlast', hlongest', -⟩ := nil_iff.mp h'
      obtain ⟨rfl, rfl⟩ := eq_of_encode_append hlast' hlast hlongest' hlongest (hbytes'.symm.trans hbytes)
      exact ⟨rfl, rfl, rfl⟩
    | cons s' segments' =>
      obtain ⟨more, hbytes', hne, hs', -⟩ := cons_iff.mp h'
      obtain ⟨rfl, rfl⟩ := eq_of_encode_append hs' hlast (hperiod _) hlongest (hbytes'.symm.trans hbytes)
      exact absurd (hends (first_period_cons _)) hne
  | cons s segments ih =>
    obtain ⟨more, hbytes, hne, hs, hmore⟩ := cons_iff.mp h
    cases segments' with
    | nil =>
      obtain ⟨hbytes', hlast', hlongest', hends'⟩ := nil_iff.mp h'
      obtain ⟨rfl, rfl⟩ := eq_of_encode_append hs hlast' (hperiod _) hlongest' (hbytes.symm.trans hbytes')
      exact absurd (hends' (first_period_cons _)) hne
    | cons s' segments' =>
      obtain ⟨more', hbytes', -, hs', hmore'⟩ := cons_iff.mp h'
      obtain ⟨rfl, heq⟩ := eq_of_encode_append hs' hs (hperiod _) (hperiod _) (hbytes'.symm.trans hbytes)
      obtain rfl := List.tail_eq_of_cons_eq heq
      obtain ⟨rfl, rfl, rfl⟩ := ih hmore hmore'
      exact ⟨rfl, rfl, rfl⟩

/-- The last name characters are behind the segments and their periods. -/
theorem exists_front (h : Qualified bytes segments last rest) : ∃ front, bytes = front ++ (encode last ++ rest) ∧
    front.length = (segments.map fun s => (encode s).length + 1).sum := by
  induction segments generalizing bytes with
  | nil => exact ⟨[], (nil_iff.mp h).1, rfl⟩
  | cons s segments ih =>
    obtain ⟨more, rfl, -, -, hmore⟩ := cons_iff.mp h
    obtain ⟨front, rfl, hlength⟩ := ih hmore
    refine ⟨encode s ++ 0x2E :: front, by rw [List.append_assoc, List.cons_append], ?_⟩
    rw [List.length_append, List.length_cons, List.map_cons, List.sum_cons, hlength]
    omega

end Qualified

/-! ## Taking a name -/

/-- A scanner has tried to take a name from `h` on, and stands at `h'`: it has handed on the segments with their
periods, and keeps `last` pending. -/
structure Head.TakesName (input : Input) (h : Head) (segments : List String) (last : String)
    (rest : List UInt8) (kind : Option Kind) (h' : Head) : Prop where
  kind : kind = if last ≠ "" ∧ (Rune.first rest).all NameSegment.isTerminator then some (.ofName last) else none
  found : h'.found = h.found ++ segmentItems input.doc.base h.line h.start segments
  start : h'.start = h.start + (segments.map fun s => (encode s).length + 1).sum
  pos : h'.pos = h'.start + (encode last).length
  line : h'.line = h.line
  room : h'.room = h.room

/-- A scanner has handed on a segment from `h` on, with the period behind it, and stands at `k` with nothing pending. -/
structure Head.TakesSegment (input : Input) (h : Head) (s : String) (k : Head) : Prop where
  found : k.found = h.found ++ [⟨.ofName s, input.doc.base + h.start, s, h.line⟩,
    ⟨.mark .period, input.doc.base + (h.start + (encode s).length), ".", h.line⟩]
  start : k.start = h.start + ((encode s).length + 1)
  line : k.line = h.line
  room : k.room = h.room

/-- A name begins with the segment that is taken before the rest of it. -/
theorem Head.TakesName.segment {input : Input} {h k h' : Head} {s last : String} {segments : List String}
    {rest : List UInt8} {kind : Option Kind} (hk : k.TakesName input segments last rest kind h')
    (hs : h.TakesSegment input s k) : h.TakesName input (s :: segments) last rest kind h' where
  kind := hk.kind
  found := by
    rw [hk.found, hs.found, hs.line, hs.start, List.append_assoc]
    rfl
  start := by rw [hk.start, hs.start, List.map_cons, List.sum_cons, Nat.add_assoc]
  pos := hk.pos
  line := hk.line.trans hs.line
  room := hk.room.trans hs.room

namespace Scanner

open Head

variable {input : Input} {expected found : List Item} {bytes rest : List UInt8} {segments : List String}
variable {last : String} {c : Cursor} {w : Nat}

/-- Name characters take no line. -/
theorem lineFeeds_name {s : String} (hs : ∀ x ∈ s.toList, isNameContinue x = true) :
    Rune.lineFeeds (s.toList.map .scalar) = 0 := by
  rw [Rune.lineFeeds, List.countP_eq_zero]
  intro r hr
  obtain ⟨x, hx, rfl⟩ := List.mem_map.mp hr
  rw [Rune.char, decide_eq_true_eq]
  rintro rfl
  exact absurd (hs _ hx) (by decide)

theorem span_name (s : String) : Rune.span (s.toList.map .scalar) = (encode s).length := by
  rw [← Rune.length_flatMap_bytes, Rune.flatMap_bytes_scalars, encode]

/-- A cursor before name characters skips them, and no others. -/
theorem skip_name {s : String} (hbytes : c.rest = Rune.read (encode s ++ rest))
    (hs : ∀ x ∈ s.toList, isNameContinue x = true) (hlongest : (Rune.first rest).any isNameContinue = false) :
    NameSegment.read c.rest = ⟨decide (s ≠ "" ∧ (Rune.first rest).all NameSegment.isTerminator),
        s.toList.map .scalar, Rune.read rest⟩ ∧
      (c.skip isNameContinue).offset = c.offset + (encode s).length ∧
      (c.skip isNameContinue).line = c.line ∧ (c.skip isNameContinue).rest = Rune.read rest := by
  have hread := segment_read hs hlongest
  rw [← hbytes] at hread
  have htaken : Rune.run isNameContinue c.rest = s.toList.map .scalar := congrArg Reading.taken hread
  have hx := Cursor.Crosses.skip isNameContinue c
  rw [htaken] at hx
  refine ⟨hread, ?_, ?_, congrArg Reading.rest hread⟩
  · rw [hx.offset, span_name]
  · rw [hx.line, lineFeeds_name hs, Nat.add_zero]

/-- What rounds of a name lead to, by the segments that lie before the head. -/
theorem ends_identifierWithin_qualified (hq : Qualified bytes segments last rest) (hc : c.Sits input)
    (hbytes : c.rest = Rune.read bytes) {rounds : Nat} (hlt : c.rest.length < rounds) :
    Ends input expected (identifierWithin rounds) (.at found c w)
      (Head.TakesName input (.at found c w) segments last rest) := by
  induction segments generalizing bytes c rounds found w with
  | nil =>
    obtain ⟨rfl, hlast, hlongest, hends⟩ := Qualified.nil_iff.mp hq
    obtain ⟨rounds, rfl⟩ := Nat.exists_eq_succ_of_ne_zero (Nat.ne_zero_of_lt hlt)
    obtain ⟨hread, hoffset, hline, hrest⟩ := skip_name hbytes hlast hlongest
    rw [ends_identifierWithin_succ hc, hread]
    dsimp only
    have htakes (kind : Option Kind) (hkind : kind =
        if last ≠ "" ∧ (Rune.first rest).all NameSegment.isTerminator then some (.ofName last) else none) :
        Head.TakesName input (.at found c w) [] last rest kind
          (.spanning found c (c.skip isNameContinue) (c.skip isNameContinue).width) :=
      ⟨hkind, (List.append_nil _).symm, rfl, hoffset, hline, rfl⟩
    split
    · rename_i hvalue
      have hperiod : (c.skip isNameContinue).peek ≠ some '.' := by
        rw [Cursor.peek, hrest]
        exact fun hdot => (of_decide_eq_true hvalue).1 (hends hdot)
      rw [if_neg hperiod, text_map_scalar]
      exact htakes _ (if_pos (of_decide_eq_true hvalue)).symm
    · rename_i hvalue
      exact htakes _ (if_neg fun h => hvalue (decide_eq_true h)).symm
  | cons s segments ih =>
    obtain ⟨more, rfl, hne, hs, hmore⟩ := Qualified.cons_iff.mp hq
    obtain ⟨rounds, rfl⟩ := Nat.exists_eq_succ_of_ne_zero (Nat.ne_zero_of_lt hlt)
    have hdot := first_period_cons more
    obtain ⟨hread, hoffset, hline, hrest⟩ := skip_name hbytes hs (by rw [hdot]; decide)
    rw [ends_identifierWithin_succ hc, hread]
    dsimp only
    have hpeek : (c.skip isNameContinue).peek = some '.' := by
      rw [Cursor.peek, hrest]
      exact hdot
    have hperiod : (c.skip isNameContinue).rest = .scalar '.' :: Rune.read more := hrest.trans (read_period_cons more)
    have hvalue : decide (s ≠ "" ∧ (Rune.first (0x2E :: more)).all NameSegment.isTerminator) = true := by
      rw [hdot]
      exact decide_eq_true ⟨hne, by decide⟩
    rw [if_pos hvalue, if_pos hpeek, text_map_scalar, hperiod]
    have hmark : Rune.text [.scalar '.'] = "." := text_map_scalar "."
    -- the period is one byte and ends no line
    have hnextOffset : (c.skip isNameContinue).next.offset = (c.skip isNameContinue).offset + 1 := by
      rw [(Cursor.Crosses.next _).offset, hperiod]
      rfl
    have hnextLine : (c.skip isNameContinue).next.line = (c.skip isNameContinue).line := by
      rw [(Cursor.Crosses.next _).line, hperiod]
      rfl
    have hnextRest : (c.skip isNameContinue).next.rest = Rune.read more := by
      rw [Cursor.rest_next, hperiod]
      rfl
    have hless := Nat.lt_of_lt_of_le (Cursor.length_next_lt hpeek) (Cursor.length_skip_le isNameContinue c)
    refine (ih hmore (hc.skip _).next hnextRest (by omega)).imp fun kind h' htakes => htakes.segment ⟨?_, ?_, ?_, rfl⟩
    · refine congrArg (found ++ ·) ?_
      rw [hoffset, hnextLine, hline, List.take_succ_cons, List.take_zero, hmark]
      rfl
    · exact hnextOffset.trans (congrArg (· + 1) hoffset)
    · exact hnextLine.trans hline

/-- From wherever a head with nothing pending stands, it takes the qualified name that is there. -/
theorem identifier_takes (hfits : input.source.length = input.doc.size)
    (henough : enoughRounds input.source ≤ input.rounds) {h : Head} (hroom : h.room = none)
    (hstart : h.start = h.pos) (hinside : h.pos ≤ input.source.length)
    (hq : Qualified (input.source.drop h.pos) segments last rest) :
    ∃ kind h', identifier input h = some (.ok kind, h') ∧ h.TakesName input segments last rest kind h' := by
  let c : Cursor := ⟨h.pos, h.line, 0, Rune.read (input.source.drop h.pos)⟩
  have hc : c.Sits input := ⟨hfits, henough, hinside, rfl⟩
  have hhead : Head.at h.found c h.width = h := by
    obtain ⟨pos, start, width, line, found, room⟩ := h
    subst hroom
    obtain rfl : start = pos := hstart
    rfl
  have hends : Ends input [] identifier h (h.TakesName input segments last rest) := by
    rw [identifier, ends_bind, ends_read, ← hhead]
    exact ends_identifierWithin_qualified hq hc rfl hc.length_rest_lt
  rw [Ends] at hends
  split at hends
  · cases hends
  · rename_i kind h' hrun
    exact ⟨kind, h', hrun, hends⟩
  · cases hends
  · cases hends
  · exact absurd hends.2 (by simp)

end Scanner

/-- The last segment of the name, and nothing else, is pending. -/
theorem Head.TakesName.pending {input : Input} {h h' : Head} {segments : List String} {last : String}
    {rest : List UInt8} {kind : Option Kind} (htakes : h.TakesName input segments last rest kind h')
    (hstart : h.start = h.pos) (hinside : h.pos ≤ input.source.length)
    (hq : Qualified (input.source.drop h.pos) segments last rest) :
    Scanner.pending input h' = some (.ok last, h') := by
  obtain ⟨front, hfront, hlength⟩ := hq.exists_front
  have hbefore : (input.source.take h.pos ++ front).length = h'.start := by
    rw [List.length_append, List.length_take, Nat.min_eq_left hinside, htakes.start, hstart, hlength]
  have hsource : input.source = input.source.take h.pos ++ front ++ (encode last ++ rest) := by
    rw [List.append_assoc, ← hfront, List.take_append_drop]
  have htext : (input.source.take h'.pos).drop h'.start = encode last := by
    rw [htakes.pos, List.drop_take, Nat.add_sub_cancel_left, hsource, ← hbefore, List.drop_left, List.take_left]
  have hle : h'.start ≤ h'.pos ∧ h'.pos ≤ input.source.length := by
    have := congrArg List.length hsource
    rw [List.length_append, hbefore, List.length_append] at this
    have := htakes.pos
    omega
  simp only [Scanner.pending, Scanner.bind_apply, Scanner.get_apply, Scanner.slice_apply, if_pos hle,
    Scanner.pure_apply, htext]
  rw [Utf8.lossy, encode, Utf8.lossyChars_encode, String.ofList_toList]

/-- Where nothing is pending, there is one way to read a qualified name. A scanner that tries to take it hands on
each segment that has a period behind it, with the period, and no other items. It keeps the last segment pending,
and says what it is if it has characters and a terminator, or nothing at all, follows. A receiver that refuses one
of the items gets no further ones. -/
theorem Scanner.identifier_qualified {input : Input} (hfits : input.source.length = input.doc.size)
    (henough : enoughRounds input.source ≤ input.rounds) {h : Head} (hroom : h.room = none)
    (hstart : h.start = h.pos) (hinside : h.pos ≤ input.source.length) :
    (∃! name : List String × String × List UInt8,
      Qualified (input.source.drop h.pos) name.1 name.2.1 name.2.2) ∧
    ∀ segments last rest, Qualified (input.source.drop h.pos) segments last rest →
      ∃ kind h', identifier input h = some (.ok kind, h') ∧
        h.TakesName input segments last rest kind h' ∧ pending input h' = some (.ok last, h') ∧
        ∀ k ≥ h.found.length,
          if h'.found.length ≤ k then identifier input (h.refusing k) = some (.ok kind, h'.refusing k)
          else ∃ g, identifier input (h.refusing k) = some (.error .refused, g) ∧
            g.found = h'.found.take (k + 1) := by
  constructor
  · obtain ⟨segments, last, rest, hq⟩ := Qualified.exists_of_bytes (input.source.drop h.pos)
    refine ⟨(segments, last, rest), hq, fun name hname => ?_⟩
    obtain ⟨hsegments, hlast, hrest⟩ := hq.unique hname
    exact Prod.ext hsegments (Prod.ext hlast hrest)
  · intro segments last rest hq
    obtain ⟨kind, h', hrun, htakes⟩ := identifier_takes hfits henough hroom hstart hinside hq
    refine ⟨kind, h', hrun, htakes, htakes.pending hstart hinside hq, fun k hk => ?_⟩
    split
    · rename_i hle
      exact obeys_identifier.agrees hroom hrun hle
    · rename_i hlt
      exact obeys_identifier.stops hroom hrun hk (Nat.lt_of_not_le hlt)

/-- The name in `a.geo.Shape!` is a name with two segments before the last. -/
theorem Scanner.identifier_qualified_shape :
    let source : List UInt8 := [0x61, 0x2E, 0x67, 0x65, 0x6F, 0x2E, 0x53, 0x68, 0x61, 0x70, 0x65, 0x21]
    let input : Input := ⟨{ name := "a", base := 1, size := 12 }, source, {}, enoughRounds source⟩
    input.source.length = input.doc.size ∧ enoughRounds input.source ≤ input.rounds ∧
      Head.initial.room = none ∧ Head.initial.start = Head.initial.pos ∧
      Head.initial.pos ≤ input.source.length ∧
      Qualified (input.source.drop Head.initial.pos) ["a", "geo"] "Shape" [0x21] ∧
      ∃ kind h', identifier input .initial = some (.ok kind, h') ∧
        Head.initial.TakesName input ["a", "geo"] "Shape" [0x21] kind h' ∧
        pending input h' = some (.ok "Shape", h') := by
  intro source input
  have hq : Qualified (input.source.drop Head.initial.pos) ["a", "geo"] "Shape" [0x21] :=
    ⟨by decide +kernel, by simp [isNameContinue_ascii], by simp [isNameContinue_ascii], by decide +kernel,
      by decide +kernel⟩
  obtain ⟨kind, h', hrun, htakes, hpending, -⟩ := (@identifier_qualified input rfl (Nat.le_refl _) .initial
    rfl rfl (Nat.zero_le _)).2 _ _ _ hq
  exact ⟨rfl, Nat.le_refl _, rfl, rfl, Nat.zero_le _, hq, kind, h', hrun, htakes, hpending⟩

end SchemaScan
