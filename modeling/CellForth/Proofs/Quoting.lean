import CellForth.Proofs.Loading
import CellForth.Proofs.Routes

/-!
# Text between quotes

A text behind `s"` or `."` may hold every character but the quote, and what follows the quote is
read from its first character on, with or without a blank in front of it. So the line does what its
rest does as a line of its own, with the text on the data stack, or after one call that wrote it
(`quoting_lossless`).

In each case the line comes to stand in front of the rest (`Faces.lineWith_sQuote`,
`Faces.lineWith_dotQuote`), and this is where the rest begins as a line, but for what a run does not
see.
-/

namespace CellForth.Interpreter

variable {s : Interpreter} {t : String}

/-- A quoted text is written as it stands, and the line goes on behind the quote. -/
theorem dotQuote_of_facing {after : String} (ht : '"' ∉ t.toList)
    (hchannel : s.channel.breakage .writing = none)
    (h : s.cursor.rest = Utf8.encode (" " ++ (t ++ ("\"" ++ after)))) :
    ∃ c, c.rest = Utf8.encode after ∧ dotQuote s =
      (.ok (), { s with channel := s.channel.writing [t], cursor := c }) := by
  obtain ⟨hparse, hrest⟩ := Cursor.parse_of_rest ht h
  refine ⟨_, hrest, ?_⟩
  have hread : parse Byte.quote s =
      (.ok t, { s with cursor := (s.cursor.parse Byte.quote).2 }) := by
    simp only [parse, hparse]
  rw [dotQuote, bind_of_ok hread, onChannel_of (Channel.write_of_none (by exact hchannel) t)]
  rfl

/-- Quoted text is written as it stands. -/
theorem Faces.lineWith_dotQuote {after : String}
    (h : s.Faces ".\"" (" " ++ (t ++ ("\"" ++ after)))) (hs : s.HostsKeepReturns)
    (hb : s.Bound .dotQuote) (hchannel : s.channel.breakage .writing = none)
    (ht : '"' ∉ t.toList) :
    Similar (Interpreter.lineWith interpret s) (Interpreter.lineWith interpret
      ({ s with channel := s.channel.writing [t] }.facing after)) := by
  obtain ⟨c, hc, hact⟩ := dotQuote_of_facing (s := s.facing _) ht hchannel rfl
  have hline := h.lineWith_of_made (b := .dotQuote) hs hb .dotQuote rfl
  rw [thenProceed_of_ok hact] at hline
  exact hline.trans (indifferent_goingOn .proceed _ _ ⟨rfl, rfl, rfl, hc.symm, rfl⟩)

/-- A text without quotes is taken off the line as it is, and the rest of the line runs as it would
without the text in front of it. -/
theorem quoting_lossless (hs : s.HostsKeepReturns) (hroom : s.machine.returns.isFull = false)
    (ht : '"' ∉ t.toList) (r : String) :
    (s.Bound .sQuote → s.machine.data.isFull = false →
      Similar (interpret ("s\" " ++ t ++ "\"" ++ r) s)
        (interpret r (s.withCells (.text t :: s.machine.data.cells)))) ∧
    (s.Bound .dotQuote → s.channel.breakage .writing = none →
      Similar (interpret (".\" " ++ t ++ "\"" ++ r) s)
        (interpret r { s with channel := s.channel.writing [t] })) := by
  have hline : ∀ w : String, w ++ " " ++ t ++ "\"" ++ r = w ++ (" " ++ (t ++ ("\"" ++ r))) := by
    intro w
    simp only [String.append_assoc]
  refine ⟨fun hquote hcell => ?_, fun hquote hchannel => ?_⟩
  · have hfaces : (s.entering ("s\" " ++ t ++ "\"" ++ r)).Faces "s\"" _ :=
      faces_entering (isWord_name .sQuote) (hline "s\"")
    have hquoted := hfaces.lineWith_sQuote hs hquote hcell ht
    exact interpret_similar_of_room hs hs rfl rfl hroom
      (hquoted.trans (indifferent_goingOn .proceed _ _ ⟨rfl, rfl, rfl, rfl, rfl⟩))
  · have hfaces : (s.entering (".\" " ++ t ++ "\"" ++ r)).Faces ".\"" _ :=
      faces_entering (isWord_name .dotQuote) (hline ".\"")
    have hquoted := hfaces.lineWith_dotQuote hs hquote hchannel ht
    exact interpret_similar_of_room hs hs rfl rfl hroom
      (hquoted.trans (indifferent_goingOn .proceed _ _ ⟨rfl, rfl, rfl, rfl, rfl⟩))

/-- A text that begins and ends with blanks and holds a line feed, a null and wide characters, with
a word right behind the quote, and an empty text in front of a fault. -/
theorem quoting_lossless_adjacent :
    let s := new 2 (.ofLines ["1 ."])
    let t := "  né\n\x00日 "
    s.HostsKeepReturns ∧ s.machine.returns.isFull = false ∧ '"' ∉ t.toList ∧
    s.Bound .sQuote ∧ s.Bound .dotQuote ∧ s.machine.data.isFull = false ∧
    s.channel.breakage .writing = none ∧
    Similar (interpret ("s\" " ++ t ++ "\"dup . .") s)
      (interpret "dup . ." (s.withCells [.text t])) ∧
    Similar (interpret (".\" " ++ t ++ "\"quit") s)
      (interpret "quit" { s with channel := s.channel.writing [t] }) ∧
    Similar (interpret ".\" \"日" s)
      (interpret "日" { s with channel := s.channel.writing [""] }) := by
  intro s t
  have hs : s.HostsKeepReturns := hostsKeepReturns_new 2 _
  obtain ⟨hquote, hdot⟩ : s.Bound .sQuote ∧ s.Bound .dotQuote := by decide +kernel
  have ht : '"' ∉ t.toList := by decide
  have hempty : '"' ∉ "".toList := by decide
  exact ⟨hs, rfl, ht, hquote, hdot, rfl, rfl, (quoting_lossless hs rfl ht "dup . .").1 hquote rfl,
    (quoting_lossless hs rfl ht "quit").2 hdot rfl,
    (quoting_lossless hs rfl hempty "日").2 hdot rfl⟩

end CellForth.Interpreter
