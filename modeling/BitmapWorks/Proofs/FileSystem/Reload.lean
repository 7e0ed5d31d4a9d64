import BitmapWorks.FileSystem
import BitmapWorks.Proofs.Decoding.Words
import BitmapWorks.Proofs.Text.Reread
import Mathlib.Tactic.SplitIfs
/-!
# Reload — a bitmap that was saved is loaded as it was

A path that can be opened for writing leads to the same file afterwards, with whatever was put there (`locate_put`); other
files are left alone (`file?_put_of_ne`).  In every file format the bytes of a bitmap are read back as its values, also
where there are none and a file without bytes is what is loaded (`reading_encode`).  The two make up `load_save`.
-/
namespace BitmapWorks
namespace FileSystem

/-! ## Files -/

theorem file?_put_of_ne {fs : FileSystem} {p q : Path} {bs : Bytes} (h : q ≠ p) :
    (fs.put p bs).file? q = fs.file? q := by
  have hkeep : ∀ x : Path × Bytes, (x.1 == q) = true → (x.1 != p) = true := by
    intro x hx
    rw [eq_of_beq hx]
    simpa using h
  unfold put file?
  rw [List.find?_cons_of_neg (by simpa using Ne.symm h), List.find?_filter]
  congr 2
  funext x
  cases hx : x.1 == q with
  | true => simp [hkeep x hx]
  | false => simp

theorem put_put (fs : FileSystem) (p : Path) (bs bs' : Bytes) : (fs.put p bs).put p bs' = fs.put p bs' := by
  simp [put, List.filter_filter]

theorem isDir_put (fs : FileSystem) (p q : Path) (bs : Bytes) : (fs.put p bs).isDir q = fs.isDir q := rfl

/-! ## Paths -/

def Reaches (p : Path) (answer : Except Int Place) : Prop :=
  (∃ old, answer = .ok (.file p old)) ∨ answer = .ok (.free p)

/-- **Names that lead to a file, or to a place for one, lead to what is put there.** -/
theorem walk_put {fs : FileSystem} {p : Path} {bs : Bytes} (names : List String) (here : Path)
    (h : Reaches p (fs.walk here names)) : (fs.put p bs).walk here names = .ok (.file p bs) := by
  induction names generalizing here with
  | nil => rcases h with ⟨old, h⟩ | h <;> cases h
  | cons name rest ih =>
    unfold walk at h ⊢
    by_cases hlong : mostNameBytes < name.utf8ByteSize
    · rw [if_pos hlong] at h
      rcases h with ⟨old, h⟩ | h <;> cases h
    by_cases hdot : name = "."
    · rw [if_neg hlong, if_pos hdot] at h ⊢
      exact ih here h
    by_cases hup : name = ".."
    · rw [if_neg hlong, if_neg hdot, if_pos hup] at h ⊢
      exact ih here.dropLast h
    rw [if_neg hlong, if_neg hdot, if_neg hup] at h ⊢
    dsimp only at h ⊢
    rw [isDir_put]
    by_cases hdir : fs.isDir (here ++ [name]) = true
    · rw [if_pos hdir] at h ⊢
      exact ih (here ++ [name]) h
    · rw [if_neg hdir] at h ⊢
      -- only the last name can lead to a file or to a place for one, and it leads to `p`
      obtain ⟨hrest, rfl⟩ : rest.isEmpty = true ∧ p = here ++ [name] := by
        cases hfile : fs.file? (here ++ [name]) <;> cases hrest : rest.isEmpty <;>
          simp [Reaches, hfile, hrest] at h <;> exact ⟨rfl, h.symm⟩
      rw [file?_put]
      simp [hrest]

def names (path : String) : List String := (path.splitOn "/").filter (!·.isEmpty)

/-- What a path means whose names lead to a place: behind a slash at its end no file can stand. -/
def standing (path : String) : Place → Except Int Place
  | .file p bs => if path.endsWith "/" then .error notADirectory else .ok (.file p bs)
  | place => .ok place

theorem locate_eq (fs : FileSystem) (path : String) :
    fs.locate path =
      if path.isEmpty = true then .error noSuchEntry
      else if path.contains '\x00' = true then .error noNumber
      else if mostPathBytes < path.utf8ByteSize then .error nameTooLong
      else if path = fullDevicePath then .ok .fullDevice
      else if path.startsWith "/" = true then .error noSuchEntry
      else (fs.walk [] (names path)).bind (standing path) := by
  have hlast : ∀ answer : Except Int Place, (do
      let place ← answer
      match place with
      | .file _ _ => if path.endsWith "/" then throw notADirectory else return place
      | _ => return place) = answer.bind (standing path) := by
    intro answer
    cases answer with
    | error n => rfl
    | ok place => cases place <;> rfl
  unfold locate
  rw [← hlast]
  split_ifs <;> rfl

/-- Whether a path is made of names only, so that these alone say where it leads. -/
structure IsPlain (path : String) : Prop where
  notEmpty : path.isEmpty = false
  noZero : path.contains '\x00' = false
  short : path.utf8ByteSize ≤ mostPathBytes
  notDevice : path ≠ fullDevicePath
  relative : path.startsWith "/" = false

theorem locate_of_isPlain {path : String} (h : IsPlain path) (fs : FileSystem) :
    fs.locate path = (fs.walk [] (names path)).bind (standing path) := by
  rw [locate_eq, h.notEmpty, h.noZero, if_neg (Nat.not_lt.2 h.short), if_neg h.notDevice, h.relative]
  rfl

theorem not_reaches_error {p : Path} {n : Int} : ¬ Reaches p (.error n) := by
  rintro (⟨old, h⟩ | h) <;> cases h

/-- A path that leads to a file, or to a place for one, is made of names. -/
theorem isPlain_of_reaches {fs : FileSystem} {path : String} {p : Path} (h : Reaches p (fs.locate path)) :
    IsPlain path := by
  rw [locate_eq] at h
  by_cases hempty : path.isEmpty = true
  · rw [if_pos hempty] at h
    exact absurd h not_reaches_error
  by_cases hzero : path.contains '\x00' = true
  · rw [if_neg hempty, if_pos hzero] at h
    exact absurd h not_reaches_error
  by_cases hlong : mostPathBytes < path.utf8ByteSize
  · rw [if_neg hempty, if_neg hzero, if_pos hlong] at h
    exact absurd h not_reaches_error
  by_cases hdevice : path = fullDevicePath
  · rw [if_neg hempty, if_neg hzero, if_neg hlong, if_pos hdevice] at h
    rcases h with ⟨old, h⟩ | h <;> cases h
  by_cases hroot : path.startsWith "/" = true
  · rw [if_neg hempty, if_neg hzero, if_neg hlong, if_neg hdevice, if_pos hroot] at h
    exact absurd h not_reaches_error
  exact ⟨Bool.eq_false_iff.2 hempty, Bool.eq_false_iff.2 hzero, Nat.not_lt.1 hlong, hdevice, Bool.eq_false_iff.2 hroot⟩

/-- A path that leads to a file, or to a place for one, has names that do; a slash at its end would forbid the file. -/
theorem reaches_of_standing {path : String} {p : Path} {answer : Except Int Place}
    (h : Reaches p (answer.bind (standing path)))
    (hend : answer.bind (standing path) = .ok (.free p) → path.endsWith "/" = false) :
    Reaches p answer ∧ path.endsWith "/" = false := by
  cases answer with
  | error n => exact absurd h not_reaches_error
  | ok place =>
    cases place with
    | file q old =>
      cases hslash : path.endsWith "/" with
      | true => simp [Reaches, Except.bind, standing, hslash] at h
      | false => simpa [Reaches, Except.bind, standing, hslash] using h
    | dir q => simp [Reaches, Except.bind, standing] at h
    | free q => simp_all [Reaches, Except.bind, standing]
    | fullDevice => simp [Reaches, Except.bind, standing] at h

/-- A path whose names lead to a file, or to a place for one, does not ask for a directory if it can be opened. -/
theorem reaches_of_openToWrite {fs : FileSystem} {path : String} {p : Path}
    (h : (fs.openToWrite path).1 = .ok (.file p [])) :
    Reaches p (fs.locate path) ∧ (fs.locate path = .ok (.free p) → path.endsWith "/" = false) := by
  unfold openToWrite at h
  cases hplace : fs.locate path with
  | error n => simp [hplace] at h
  | ok place =>
    cases place with
    | file q old => simp_all [Reaches]
    | dir q => simp [hplace] at h
    | free q =>
      cases hend : path.endsWith "/" with
      | true => simp [hplace, hend] at h
      | false => simp_all [Reaches]
    | fullDevice => simp [hplace] at h

theorem openToWrite_eq {fs : FileSystem} {path : String} {p : Path} (h : (fs.openToWrite path).1 = .ok (.file p [])) :
    fs.openToWrite path = (.ok (.file p []), fs.put p []) := by
  obtain ⟨hreaches, hend⟩ := reaches_of_openToWrite h
  unfold openToWrite
  rcases hreaches with ⟨old, hplace⟩ | hplace
  · rw [hplace]
  · rw [hplace]
    simp [hend hplace]

/-- **A path that can be opened for writing leads to what is put there.** -/
theorem locate_put {fs : FileSystem} {path : String} {p : Path} (h : (fs.openToWrite path).1 = .ok (.file p []))
    (bs : Bytes) : (fs.put p bs).locate path = .ok (.file p bs) := by
  obtain ⟨hreaches, hend⟩ := reaches_of_openToWrite h
  have hplain := isPlain_of_reaches hreaches
  rw [locate_of_isPlain hplain] at hreaches hend ⊢
  obtain ⟨hwalk, hslash⟩ := reaches_of_standing hreaches hend
  rw [walk_put (names path) [] hwalk]
  show standing path (.file p bs) = _
  simp [standing, hslash]

theorem read?_put {fs : FileSystem} {path : String} {p : Path} (h : (fs.openToWrite path).1 = .ok (.file p []))
    (bs : Bytes) : (fs.put p bs).read? path = some bs := by
  rw [read?, locate_put h]

/-! ## Saving and loading -/

/-- **Saving puts the encoding into the file**, whatever was there, and tells how long the file is. -/
theorem save_eq {fs : FileSystem} {path : String} {p : Path} (h : (fs.openToWrite path).1 = .ok (.file p []))
    {b : Bitmap} {f : FileFormat} {bs : Bytes} (hbs : encode b f = .ok bs) :
    fs.save b path f = (.ok bs.length, fs.put p bs) := by
  have htold : (fs.put p bs).toldLength p bs f = bs.length := by
    cases f <;> simp [toldLength, file?_put]
  unfold save
  rw [openToWrite_eq h]
  dsimp only
  rw [hbs]
  dsimp only
  rw [put_put, htold]

def reading (bs : Bytes) (f : FileFormat) : Except Fault Content :=
  if bs.isEmpty then .ok (.owned .empty) else decode bs f

theorem load_put {fs : FileSystem} {path : String} {p : Path} (h : (fs.openToWrite path).1 = .ok (.file p []))
    (bs : Bytes) (f : FileFormat) : (fs.put p bs).load path f = reading bs f := by
  rw [load, locate_put h]
  rfl

/-- Whether bytes are what a bitmap is in memory: for the binary formats what serializing shows wherever memory is given,
otherwise the values as words or as text. -/
def Encodes (b : Bitmap) (bs : Bytes) : FileFormat → Prop
  | .binary format => ∀ base, ∃ w, Encoding.serialize base b format = .ok w ∧ w.visible = bs
  | .words => bs = b.values.flatMap Bytes.ofWord32
  | .text style => bs = Text.render style b.values

theorem encode_binary {b : Bitmap} (hb : b.valid = true) (format : Format) :
    encode b (.binary format) = .ok (Encoding.encode b format) := by
  obtain ⟨w, hw, hvisible, -⟩ := Encoding.serialize_spec hb format 0
  rw [encode, hw, ← hvisible]
  rfl

/-- **Every encoding succeeds.** -/
theorem encode_spec {b : Bitmap} (hb : b.valid = true) (f : FileFormat) :
    ∃ bs, encode b f = .ok bs ∧ Encodes b bs f := by
  cases f with
  | binary format =>
    refine ⟨_, encode_binary hb format, fun base => ?_⟩
    obtain ⟨w, hw, hvisible, -⟩ := Encoding.serialize_spec hb format base
    exact ⟨w, hw, hvisible⟩
  | words => exact ⟨_, rfl, rfl⟩
  | text style => exact ⟨_, rfl, Text.bytes_eq_render b style⟩

theorem decode_binary {b : Bitmap} (hb : b.valid = true) (f : Format) (base : Nat) :
    ∃ content, Decoding.decode base (Encoding.encode b f) f = .ok content ∧
      ((f = .frozenPortable → Portable.addressable b = true) → content.bitmap.values = b.values) := by
  cases hf : f.isFrozen with
  | true =>
    obtain ⟨⟨content, hdecode, -, hcontent⟩, -⟩ := Decoding.decode_encode_of_isFrozen hb hf base
    refine ⟨content, hdecode, fun hfits => ?_⟩
    rw [hcontent, Decoding.view_encode hb hf hfits]
  | false =>
    obtain ⟨d, hd, hvalues, -⟩ := Decoding.unfrozen_encode hb hf
    obtain ⟨hdecode, -⟩ := Decoding.decode_of_not_isFrozen (Decoding.encode_ne_nil hb f) hf base
    rw [hd] at hdecode
    exact ⟨.owned d, hdecode, fun _ => hvalues⟩

theorem reading_of_ne_nil {bs : Bytes} (h : bs ≠ []) (f : FileFormat) : reading bs f = decode bs f := by
  cases bs with
  | nil => exact absurd rfl h
  | cons b bs => rfl

/-- **What a format writes is read back as the same values**, also where it writes no bytes at all. -/
theorem reading_encode {b : Bitmap} (hb : b.valid = true) {f : FileFormat} {bs : Bytes} (hbs : encode b f = .ok bs)
    (hcount : f = .words → b.card < 2 ^ 32) :
    ∃ content, reading bs f = .ok content ∧
      ((f = .binary .frozenPortable → Portable.addressable b = true) → content.bitmap.values = b.values) := by
  -- no bytes are loaded as the empty bitmap, so this is what the format has to have meant by them
  have hnothing : ∀ content : Content, content.bitmap.values = b.values → (bs = [] → content.bitmap.values = []) →
      decode bs f = .ok content → ∃ content, reading bs f = .ok content ∧ content.bitmap.values = b.values := by
    intro content hvalues hempty hdecode
    by_cases hnil : bs = []
    · refine ⟨.owned .empty, by rw [hnil]; rfl, ?_⟩
      rw [← hvalues, hempty hnil]
      rfl
    · exact ⟨content, (reading_of_ne_nil hnil f).trans hdecode, hvalues⟩
  cases f with
  | binary format =>
    rw [encode_binary hb, Except.ok.injEq] at hbs
    obtain ⟨content, hdecode, hvalues⟩ := decode_binary hb format 0
    refine ⟨content, ?_, fun hfits => hvalues fun hformat => hfits (by rw [hformat])⟩
    rw [← hbs, reading_of_ne_nil (Decoding.encode_ne_nil hb format)]
    exact hdecode
  | words =>
    obtain rfl : Encoding.wordBytes b = bs := Except.ok.inj hbs
    obtain ⟨d, hwords, -, hvalues⟩ := Decoding.words_wordBytes hb (hcount rfl)
    have hempty : Encoding.wordBytes b = [] → d.values = [] := by
      intro hnil
      have hlength := Encoding.length_wordBytes hb
      rw [hnil, List.length_nil] at hlength
      rw [hvalues, ← List.length_eq_zero_iff, Bitmap.length_values hb]
      omega
    obtain ⟨content, hreading, hsame⟩ := hnothing (.owned d) hvalues hempty (by rw [decode, hwords]; rfl)
    exact ⟨content, hreading, fun _ => hsame⟩
  | text style =>
    obtain rfl : Text.bytes b style = bs := Except.ok.inj hbs
    have hempty : Text.bytes b style = [] → (Text.scan (Text.bytes b style)).values = [] := by
      intro hnil
      rw [hnil]
      rfl
    obtain ⟨content, hreading, hsame⟩ :=
      hnothing (.owned (Text.scan (Text.bytes b style))) (Text.values_scan_bytes hb style) hempty rfl
    exact ⟨content, hreading, fun _ => hsame⟩

/-- **A bitmap that was saved is loaded as it was.**  At a path that can be opened for writing, saving leaves the file with
exactly what the bitmap is in memory, whatever was there before, tells the length of the file and leaves other files
alone; loading then gives the values of the bitmap.  Plain words can be loaded if there are fewer than `2 ^ 32`, and what
is used in place shows the bitmap if its layout has words wide enough for where bodies start. -/
theorem load_save {fs : FileSystem} {path : String} {p : Path} (hpath : (fs.openToWrite path).1 = .ok (.file p []))
    {b : Bitmap} (hb : b.valid = true) (f : FileFormat) :
    ∃ (bs : Bytes) (after : FileSystem), Encodes b bs f ∧ fs.save b path f = (.ok bs.length, after) ∧
      after.read? path = some bs ∧ (∀ q, q ≠ p → after.file? q = fs.file? q) ∧ after.dirs = fs.dirs ∧
      ((f = .words → b.card < 2 ^ 32) → ∃ content, after.load path f = .ok content ∧
        ((f = .binary .frozenPortable → Portable.addressable b = true) → content.bitmap.values = b.values)) := by
  obtain ⟨bs, hbs, hencodes⟩ := encode_spec hb f
  refine ⟨bs, fs.put p bs, hencodes, save_eq hpath hbs, read?_put hpath bs, fun q hq => file?_put_of_ne hq, rfl, ?_⟩
  intro hcount
  obtain ⟨content, hreading, hvalues⟩ := reading_encode hb hbs hcount
  exact ⟨content, (load_put hpath bs f).trans hreading, hvalues⟩

def shelved : FileSystem := ⟨[(["d", "f"], [49, 44, 50, 44, 51, 44, 52])], [["d"]]⟩

theorem names_shelved : names "d/f" = ["d", "f"] := by
  have hsplit : "d/f".splitOn "/" = ["d", "f"] := by
    -- one turn for each character and one for the end
    calc "d/f".splitOnAux "/" ⟨0⟩ ⟨0⟩ ⟨0⟩ []
        = "d/f".splitOnAux "/" ⟨0⟩ ⟨1⟩ ⟨0⟩ [] := by rw [String.splitOnAux]; rfl
      _ = "d/f".splitOnAux "/" ⟨2⟩ ⟨2⟩ ⟨0⟩ ["d"] := by rw [String.splitOnAux]; rfl
      _ = "d/f".splitOnAux "/" ⟨2⟩ ⟨3⟩ ⟨0⟩ ["d"] := by rw [String.splitOnAux]; rfl
      _ = ["d", "f"] := by rw [String.splitOnAux]; rfl
  rw [names, hsplit]
  decide

theorem isPlain_shelved : IsPlain "d/f" where
  notEmpty := by decide +kernel
  noZero := by rw [String.contains_char_eq]; decide
  short := by decide +kernel
  notDevice := by decide
  relative := by decide +kernel

theorem locate_shelved : shelved.locate "d/f" = .ok (.file ["d", "f"] [49, 44, 50, 44, 51, 44, 52]) := by
  have hend : "d/f".endsWith "/" = false := by decide +kernel
  have hwalk : shelved.walk [] ["d", "f"] = .ok (.file ["d", "f"] [49, 44, 50, 44, 51, 44, 52]) := by
    decide +kernel
  rw [locate_of_isPlain isPlain_shelved, names_shelved, hwalk]
  simp [Except.bind, standing, hend]

theorem openToWrite_shelved : (shelved.openToWrite "d/f").1 = .ok (.file ["d", "f"] []) := by
  rw [openToWrite, locate_shelved]

theorem load_save_shelved :
    (shelved.save ⟨[(0, .array #[7])]⟩ "d/f" (.text .jsonArray)).1 = .ok 3 ∧
    ((shelved.save ⟨[(0, .array #[7])]⟩ "d/f" (.text .jsonArray)).2.load "d/f" (.text .jsonArray)).map
      (·.bitmap.values) = .ok [7] ∧
    (shelved.save .empty "d/f" .words).1 = .ok 0 ∧
    ((shelved.save .empty "d/f" .words).2.load "d/f" .words).map (·.bitmap.values) = .ok [] ∧
    ((shelved.save ⟨[(0, .array #[7])]⟩ "d/f" (.binary .frozenPortable)).2.load "d/f" (.binary .frozenPortable)).map
      (·.bitmap.values) = .ok [7] := by
  have hpath := openToWrite_shelved
  obtain ⟨bs, after, hencodes, hsave, -, -, -, hload⟩ :=
    load_save hpath (b := ⟨[(0, .array #[7])]⟩) (by decide) (.text .jsonArray)
  obtain ⟨content, hcontent, hvalues⟩ := hload (by intro h; cases h)
  obtain ⟨bs', after', hencodes', hsave', -, -, -, hload'⟩ := load_save hpath (b := .empty) rfl .words
  obtain ⟨content', hcontent', hvalues'⟩ := hload' fun _ => by decide
  obtain ⟨bs'', after'', -, hsave'', -, -, -, hload''⟩ :=
    load_save hpath (b := ⟨[(0, .array #[7])]⟩) (by decide) (.binary .frozenPortable)
  obtain ⟨content'', hcontent'', hvalues''⟩ := hload'' (by intro h; cases h)
  have hfits : Portable.addressable ⟨[(0, .array #[7])]⟩ = true :=
    Portable.addressable_of_plain (by decide) (by simp [Bitmap.Plain, Container.isRuns])
  have hbytes : bs = Text.render .jsonArray [7] := hencodes
  have hbytes' : bs' = [] := hencodes'
  have hthree : (Text.render .jsonArray [7]).length = 3 := by
    simp [Text.render, Text.joined, Text.digits_of_lt, Text.opening, Text.closing]
  rw [hsave, hsave', hsave'', hbytes, hbytes', hthree]
  refine ⟨rfl, ?_, rfl, ?_, ?_⟩
  · rw [hcontent, Except.map, hvalues (by intro h; cases h)]
    rfl
  · rw [hcontent', Except.map, hvalues' (by intro h; cases h)]
    rfl
  · rw [hcontent'', Except.map, hvalues'' fun _ => hfits]
    rfl

/-- **What is saved to be used in place is loaded cut short where a body starts too far behind.** -/
theorem shredded_loads_less : Portable.shredded.valid = true ∧ ∃ after content,
    shelved.save Portable.shredded "d/f" (.binary .frozenPortable)
      = (.ok (Portable.encode Portable.shredded).length, after) ∧
    after.read? "d/f" = some (Portable.encode Portable.shredded) ∧
    after.load "d/f" (.binary .frozenPortable) = .ok content ∧
    content.bitmap.values ≠ Portable.shredded.values := by
  have hb := Portable.valid_shredded
  have hpath := openToWrite_shelved
  have hencode : encode Portable.shredded (.binary .frozenPortable) = .ok (Portable.encode Portable.shredded) :=
    encode_binary hb .frozenPortable
  obtain ⟨⟨content, hdecode, -, hcontent⟩, -⟩ :=
    Decoding.decode_encode_of_isFrozen hb (f := .frozenPortable) rfl 0
  have hreading : reading (Portable.encode Portable.shredded) (.binary .frozenPortable) = .ok content :=
    (reading_of_ne_nil (Decoding.encode_ne_nil hb .frozenPortable) _).trans hdecode
  refine ⟨hb, _, content, save_eq hpath hencode, read?_put hpath _, (load_put hpath _ _).trans hreading, ?_⟩
  rw [hcontent, Decoding.view_encode_shredded]
  exact Portable.values_frayed_ne

end FileSystem
end BitmapWorks
