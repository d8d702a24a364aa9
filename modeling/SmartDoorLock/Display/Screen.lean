import SmartDoorLock.Display.Print
import SmartDoorLock.Lib.Machine
import SmartDoorLock.Lib.Pages

/-!
# What the display shows

`lcd_printf` only appends rows: it never moves the rows that stand, and clears the
screen when there is no row left. The buffer of the graphics library is what was
drawn since then; the panel shows the buffer as it was at the last update. Over any
number of texts that is the last page of all pieces printed so far.
-/

namespace SmartDoorLock

open CText Machine Pages

/-! ## The screen -/

/-- The texts that stand on each row. Two texts on one row are drawn one over the
other. -/
abbrev ScreenRows := ℕ → List (List UInt8)

/-- The buffer of the graphics library, and the panel. -/
structure Screen where
  buffer : ScreenRows := fun _ => []
  panel : ScreenRows := fun _ => []

/-- What a recorded call does to the screen, as the graphics library documents it:
`GLIB_clear` empties the buffer, `GLIB_drawStringOnLine` adds a text on a row, and
`DMD_updateDisplay` brings the buffer to the panel. The code never reads the screen;
this only reads the calls it has made. -/
def LcdCall.draw (screen : Screen) : LcdCall → Screen
  | .clear => { screen with buffer := fun _ => [] }
  | .drawStringOnLine string line =>
      { screen with
        buffer := fun row =>
          if row = line.toNat then screen.buffer row ++ [string] else screen.buffer row }
  | .updateDisplay => { screen with panel := screen.buffer }

/-- The screen after the calls, from the cleared one of `lcd_init` on. -/
def screenOf (calls : List LcdCall) : Screen := calls.foldl LcdCall.draw {}

/-- The rows of a page, from the top. -/
def rowsOf (page : List (List UInt8)) : ScreenRows := fun row => page[row]?.toList

/-- No text was ever drawn over another. -/
def Legible (calls : List LcdCall) : Prop :=
  ∀ front, front <+: calls → ∀ row, ((screenOf front).buffer row).length ≤ 1

/-- The lines of a text that are drawn. -/
def printedLines (text : List UInt8) : List (List UInt8) := linesOf ((cstr text).filter (· ≠ 13))

/-- A page stands on the display, and `_curLine` is the row behind it. -/
structure Shows (lcd : Lcd) (page : List (List UInt8)) : Prop where
  curLine : lcd.curLine.toNat = page.length
  buffer : (screenOf lcd.calls).buffer = rowsOf page
  legible : Legible lcd.calls

theorem screenOf_snoc (calls : List LcdCall) (call : LcdCall) :
    screenOf (calls ++ [call]) = LcdCall.draw (screenOf calls) call := by
  rw [screenOf, List.foldl_append]
  rfl

theorem length_rowsOf_le (page : List (List UInt8)) (row : ℕ) : (rowsOf page row).length ≤ 1 :=
  Option.length_toList_le

theorem Legible.snoc {calls : List LcdCall} {call : LcdCall} {page : List (List UInt8)}
    (h : Legible calls) (hbuffer : (screenOf (calls ++ [call])).buffer = rowsOf page) :
    Legible (calls ++ [call]) := by
  intro front hfront row
  rcases List.prefix_concat_iff.mp hfront with rfl | hbefore
  · rw [hbuffer]
    exact length_rowsOf_le page row
  · exact h front hbefore row

/-! ## A row -/

/-- `lcd_puts`, on a row of the display. -/
def putRow (NUM_OF_LINES : ℕ) (lcd : Lcd) (string : List UInt8) : Lcd :=
  lcdPuts string (cleanIfFull NUM_OF_LINES lcd)

section

variable {LINE_SIZE NUM_OF_LINES : ℕ} {lcd lcd' : Lcd} {page : List (List UInt8)}

theorem rowsOf_concat (page : List (List UInt8)) (string : List UInt8) (row : ℕ) :
    rowsOf (page ++ [string]) row =
      if row = page.length then rowsOf page row ++ [string] else rowsOf page row := by
  unfold rowsOf
  rcases Nat.lt_trichotomy row page.length with hlt | rfl | hgt
  · rw [if_neg hlt.ne, List.getElem?_append_left hlt]
  · rw [if_pos rfl, List.getElem?_concat_length, List.getElem?_eq_none le_rfl]
    rfl
  · have hbelow : (page ++ [string]).length ≤ row := by
      rw [List.length_append]
      exact hgt
    rw [if_neg hgt.ne', List.getElem?_eq_none hgt.le, List.getElem?_eq_none hbelow]

/-- A cleared screen. -/
theorem Shows.cleanScreen (h : Shows lcd page) : Shows (cleanScreen lcd) [] := by
  have hbuffer : (screenOf (lcd.calls ++ [.clear])).buffer = rowsOf [] := by
    rw [screenOf_snoc]
    rfl
  exact ⟨rfl, hbuffer, h.legible.snoc hbuffer⟩

/-- A text on the row behind the page. -/
theorem Shows.lcdPuts (h : Shows lcd page) (hroom : page.length < NUM_OF_LINES)
    (hbyte : NUM_OF_LINES ≤ 255) (string : List UInt8) :
    Shows (lcdPuts string lcd) (page ++ [string]) := by
  have hbuffer : (screenOf (lcd.calls ++ [.drawStringOnLine string lcd.curLine])).buffer =
      rowsOf (page ++ [string]) := by
    rw [screenOf_snoc]
    funext row
    rw [rowsOf_concat, LcdCall.draw, h.curLine, h.buffer]
  refine ⟨?_, hbuffer, h.legible.snoc hbuffer⟩
  show (lcd.curLine + 1).toNat = _
  rw [UInt8.toNat_add, h.curLine, List.length_append, Nat.mod_eq_of_lt]
  · rfl
  · show page.length + 1 < 256
    omega

/-- **A row more** is a turn of the page when there is no row left. -/
theorem Shows.putRow (h : Shows lcd page) (hnum : 1 ≤ NUM_OF_LINES)
    (hbyte : NUM_OF_LINES ≤ 255) (string : List UInt8) :
    Shows (putRow NUM_OF_LINES lcd string) (turn NUM_OF_LINES page string) := by
  unfold SmartDoorLock.putRow cleanIfFull turn
  rw [h.curLine]
  split
  · exact h.cleanScreen.lcdPuts hnum hbyte string
  · rename_i hroom
    exact h.lcdPuts (Nat.not_le.mp hroom) hbyte string

theorem Shows.putRows (h : Shows lcd page) (hnum : 1 ≤ NUM_OF_LINES)
    (hbyte : NUM_OF_LINES ≤ 255) (pieces : List (List UInt8)) :
    Shows (pieces.foldl (SmartDoorLock.putRow NUM_OF_LINES) lcd)
      (pieces.foldl (turn NUM_OF_LINES) page) := by
  induction pieces generalizing lcd page with
  | nil => exact h
  | cons p pieces ih => exact ih (h.putRow hnum hbyte p)

/-! ## The loops draw rows, one after the other -/

theorem draws_putRows (hnum : 1 ≤ NUM_OF_LINES) (pieces : List (List UInt8)) (lcd : Lcd) :
    Draws NUM_OF_LINES lcd pieces (pieces.foldl (putRow NUM_OF_LINES) lcd) := by
  induction pieces generalizing lcd with
  | nil => exact Draws.refl lcd
  | cons p pieces ih => exact (draws_lcdPuts hnum lcd p).trans (ih _)

/-- What was drawn is determined by the calls. -/
theorem Draws.unique {ps qs : List (List UInt8)} (h : Draws NUM_OF_LINES lcd ps lcd')
    (h' : Draws NUM_OF_LINES lcd qs lcd') : ps = qs := by
  obtain ⟨rows, hrows, rfl, -⟩ := h
  obtain ⟨rows', hrows', rfl, -⟩ := h'
  rw [hrows, List.append_cancel_left_eq] at hrows'
  rw [hrows']

theorem cleanIfFull_cleanIfFull (hnum : 1 ≤ NUM_OF_LINES) (lcd : Lcd) :
    cleanIfFull NUM_OF_LINES (cleanIfFull NUM_OF_LINES lcd) = cleanIfFull NUM_OF_LINES lcd := by
  conv_lhs => rw [cleanIfFull, if_neg (Nat.not_le.mpr (cleanIfFull_spec hnum lcd).1)]

/-- Clearing a full screen first changes nothing when a row is drawn afterwards. -/
theorem putRows_cleanIfFull (hnum : 1 ≤ NUM_OF_LINES) {pieces : List (List UInt8)}
    (hne : pieces ≠ []) (lcd : Lcd) :
    pieces.foldl (putRow NUM_OF_LINES) (cleanIfFull NUM_OF_LINES lcd) =
      pieces.foldl (putRow NUM_OF_LINES) lcd := by
  obtain ⟨p, pieces, rfl⟩ := List.exists_cons_of_ne_nil hne
  have hfirst : putRow NUM_OF_LINES (cleanIfFull NUM_OF_LINES lcd) p =
      putRow NUM_OF_LINES lcd p := by
    rw [putRow, cleanIfFull_cleanIfFull hnum]
    rfl
  rw [List.foldl_cons, List.foldl_cons, hfirst]

/-- The rows of a long line. -/
theorem wrapLoop_puts {buf : List UInt8} {line lineSize fuel i lastSpace lastSpace' : ℕ}
    (h : wrapLoop LINE_SIZE NUM_OF_LINES buf line lineSize fuel i lastSpace lcd =
      some (lastSpace', lcd')) :
    ∃ pieces : List (List UInt8),
      lcd' = pieces.foldl (putRow NUM_OF_LINES) lcd ∧ (i < lineSize → pieces ≠ []) := by
  induction fuel generalizing i lastSpace lcd with
  | zero => cases h
  | succ fuel ih =>
      rw [wrapLoop] at h
      by_cases hmore : i < lineSize
      · rw [if_pos hmore] at h
        obtain ⟨pieces, hpieces, -⟩ := ih h
        exact ⟨_ :: pieces, hpieces, fun _ => List.cons_ne_nil _ _⟩
      · rw [if_neg hmore] at h
        cases h
        exact ⟨[], rfl, fun hlt => absurd hlt hmore⟩

/-- The rows of all lines. -/
theorem linesLoop_puts (hnum : 1 ≤ NUM_OF_LINES) {fuel lastSpace : ℕ} {line : Option ℕ}
    {t : Tokens} (h : linesLoop LINE_SIZE NUM_OF_LINES fuel line t lastSpace lcd = some lcd') :
    ∃ pieces : List (List UInt8), lcd' = pieces.foldl (putRow NUM_OF_LINES) lcd := by
  induction fuel generalizing line t lastSpace lcd with
  | zero => cases h
  | succ fuel ih =>
      cases line with
      | none =>
          cases h
          exact ⟨[], rfl⟩
      | some line =>
          rw [linesLoop] at h
          simp only [Option.bind_eq_some_iff] at h
          obtain ⟨⟨lastSpace₁, lcd₁⟩, hdrawn, hrest⟩ := h
          obtain ⟨pieces', hpieces'⟩ := ih hrest
          split at hdrawn
          · rename_i hlong
            obtain ⟨pieces, hpieces, hne⟩ := wrapLoop_puts hdrawn
            refine ⟨pieces ++ pieces', ?_⟩
            rw [hpieces', List.foldl_append, hpieces,
              putRows_cleanIfFull hnum (hne (Nat.zero_lt_of_lt hlong))]
          · cases hdrawn
            exact ⟨_ :: pieces', hpieces'⟩

end

/-! ## The texts -/

/-- The panel is up to date. -/
structure ShowsAll (lcd : Lcd) (page : List (List UInt8)) : Prop extends Shows lcd page where
  panel : (screenOf lcd.calls).panel = rowsOf page

/-- The panel shows what was drawn. -/
theorem Shows.updateDisplay {lcd : Lcd} {page : List (List UInt8)}
    (h : Shows lcd page) :
    ShowsAll { lcd with calls := lcd.calls ++ [.updateDisplay] } page := by
  have hbuffer : (screenOf (lcd.calls ++ [.updateDisplay])).buffer = rowsOf page := by
    rw [screenOf_snoc]
    exact h.buffer
  have hpanel : (screenOf (lcd.calls ++ [.updateDisplay])).panel = rowsOf page := by
    rw [screenOf_snoc]
    exact h.buffer
  exact ⟨⟨h.curLine, hbuffer, h.legible.snoc hbuffer⟩, hpanel⟩

/-- **A text** is printed behind the page, which is turned as often as it is full. -/
theorem ShowsAll.lcdPrintf {LINE_SIZE NUM_OF_LINES fuel : ℕ} {lcd : Lcd}
    {page : List (List UInt8)} {text : List UInt8} (h : ShowsAll lcd page)
    (hwidth : 1 ≤ LINE_SIZE) (hnum : 1 ≤ NUM_OF_LINES) (hbyte : NUM_OF_LINES ≤ 255)
    (hlen : text.length < 1024) (hfuel : 1025 ≤ fuel) :
    ∃ lcd' pieces, lcdPrintf LINE_SIZE NUM_OF_LINES fuel text lcd = some lcd' ∧
      List.Forall₂ (Wrapped LINE_SIZE) (printedLines text) pieces ∧
      ShowsAll lcd' (pieces.flatten.foldl (turn NUM_OF_LINES) page) := by
  obtain ⟨lcd', pieces, hprint, hwrapped, hdraws⟩ :=
    lcdPrintf_wraps LINE_SIZE NUM_OF_LINES fuel text lcd hwidth hnum hlen hfuel
  refine ⟨lcd', pieces, hprint, hwrapped, ?_⟩
  rw [SmartDoorLock.lcdPrintf] at hprint
  split at hprint
  · cases hprint
    rw [← Draws.unique (Draws.refl lcd) hdraws]
    exact h
  · simp only [Option.map_eq_some_iff] at hprint
    obtain ⟨lcd₁, hloop, rfl⟩ := hprint
    obtain ⟨drawn, rfl⟩ := linesLoop_puts hnum hloop
    rw [← Draws.unique (draws_putRows hnum drawn lcd).updateDisplay hdraws]
    exact (h.putRows hnum hbyte drawn).updateDisplay

/-- The texts one after the other. -/
def lcdPrintStep (LINE_SIZE NUM_OF_LINES fuel : ℕ) (lcd : Lcd) (text : List UInt8) : Option Lcd :=
  lcdPrintf LINE_SIZE NUM_OF_LINES fuel text lcd

theorem ShowsAll.run {LINE_SIZE NUM_OF_LINES fuel : ℕ} {texts : List (List UInt8)} {lcd : Lcd}
    {page : List (List UInt8)} (h : ShowsAll lcd page) (hwidth : 1 ≤ LINE_SIZE)
    (hnum : 1 ≤ NUM_OF_LINES) (hbyte : NUM_OF_LINES ≤ 255)
    (hlen : ∀ text ∈ texts, text.length < 1024) (hfuel : 1025 ≤ fuel) :
    ∃ lcd' pieces, run (lcdPrintStep LINE_SIZE NUM_OF_LINES fuel) lcd texts = some lcd' ∧
      List.Forall₂ (Wrapped LINE_SIZE) (texts.flatMap printedLines) pieces ∧
      ShowsAll lcd' (pieces.flatten.foldl (turn NUM_OF_LINES) page) := by
  induction texts generalizing lcd page with
  | nil => exact ⟨lcd, [], rfl, List.Forall₂.nil, h⟩
  | cons text texts ih =>
      obtain ⟨lcd₁, first, hprint, hfirst, h₁⟩ :=
        h.lcdPrintf hwidth hnum hbyte (hlen text List.mem_cons_self) hfuel
      obtain ⟨lcd', rest, hrun, hrest, h'⟩ :=
        ih h₁ fun text hmem => hlen text (List.mem_cons_of_mem _ hmem)
      refine ⟨lcd', first ++ rest, ?_, ?_, ?_⟩
      · rw [run_cons_of_step hprint, hrun]
      · exact List.rel_append hfirst hrest
      · rw [List.flatten_append, List.foldl_append]
        exact h'

/-- **The panel shows the last page.** Whatever texts are printed from power-on, each
line of each text is drawn in pieces of the display's width, and after the last text
the panel shows the last page of all pieces, from the top row down and with nothing
below it; at no moment in between were two texts drawn on one row. -/
theorem panel_shows_last_page (LINE_SIZE NUM_OF_LINES fuel : ℕ) (texts : List (List UInt8))
    (hwidth : 1 ≤ LINE_SIZE) (hnum : 1 ≤ NUM_OF_LINES) (hbyte : NUM_OF_LINES ≤ 255)
    (hlen : ∀ text ∈ texts, text.length < 1024) (hfuel : 1025 ≤ fuel) :
    ∃ lcd pieces, run (lcdPrintStep LINE_SIZE NUM_OF_LINES fuel) {} texts = some lcd ∧
      List.Forall₂ (Wrapped LINE_SIZE) (texts.flatMap printedLines) pieces ∧
      (screenOf lcd.calls).panel = rowsOf (lastPage NUM_OF_LINES pieces.flatten) ∧
      Legible lcd.calls := by
  have hstart : ShowsAll {} [] := by
    refine ⟨⟨rfl, rfl, ?_⟩, rfl⟩
    intro front hfront row
    rw [List.prefix_nil.mp hfront]
    exact Nat.zero_le _
  obtain ⟨lcd, pieces, hrun, hwrapped, h⟩ := hstart.run hwidth hnum hbyte hlen hfuel
  rw [foldl_turn hnum] at h
  exact ⟨lcd, pieces, hrun, hwrapped, h.panel, h.legible⟩

/-! Three texts on a display of two rows. -/

theorem threeTexts_shown :
    ∃ lcd pieces, run (lcdPrintStep 6 2 1025) {} [shortText, [], ascii "hi\n"] = some lcd ∧
      List.Forall₂ (Wrapped 6) ([shortText, [], ascii "hi\n"].flatMap printedLines) pieces ∧
      (screenOf lcd.calls).panel = rowsOf (lastPage 2 pieces.flatten) ∧ Legible lcd.calls := by
  apply panel_shows_last_page 6 2 1025 _ (by decide) (by decide) (by decide) _ le_rfl
  decide +kernel

end SmartDoorLock
