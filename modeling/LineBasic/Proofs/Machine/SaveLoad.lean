import LineBasic.Machine.Run
import LineBasic.Proofs.Listing.Changes

/-!
# Saving and loading a program

What `SAVE` writes to a file `LOAD` brings back: the same line numbers with the
same texts.

* `Machine.execute_save`, `Machine.execute_load`: what the two statements do.
* `Machine.load_undoes_save`: the listing that was saved is the one that is
  loaded.
-/

namespace LineBasic

/-- Every name is a file of its own, and no print fails. -/
structure Console.Plain (c : Console) : Prop where
  naming : c.storage.naming = .names
  failIn : c.failIn = none

namespace Console

variable {c : Console}

/-- The break key has nothing to do with what is printed and stored. -/
theorem countPrint_frame (c : Console) :
    c.countPrint.output = c.output ∧ c.countPrint.storage = c.storage ∧ c.countPrint.failIn = c.failIn := by
  unfold countPrint
  split
  · exact ⟨rfl, rfl, rfl⟩
  · split <;> exact ⟨rfl, rfl, rfl⟩

/-- A plain console prints, and stays plain with the same files. -/
theorem Plain.print (h : c.Plain) (text : String) :
    ∃ c', c.print text true = (.ok (), c') ∧ c'.output = c.output ++ text ++ "\n" ∧ c'.storage = c.storage ∧
      c'.Plain := by
  obtain ⟨houtput, hstorage, hfail⟩ := countPrint_frame { c with failIn := c.failIn.map (· - 1) }
  rw [Console.print, if_neg (by rw [h.failIn]; simp)]
  dsimp only
  generalize countPrint _ = d at houtput hstorage hfail
  refine ⟨_, rfl, ?_, hstorage, ?_, ?_⟩
  · exact congrArg (· ++ text ++ "\n") houtput
  · exact (congrArg Storage.naming hstorage).trans h.naming
  · exact hfail.trans (by rw [h.failIn]; rfl)

/-- A plain console writes any file, and stays plain. -/
theorem Plain.writeText (h : c.Plain) (file text : String) :
    ∃ c', c.writeText file text = .ok c' ∧ c'.storage.files[file]? = some text ∧ c'.Plain := by
  refine ⟨_, by simp only [Console.writeText, Storage.write, Storage.locate, h.naming]; rfl, ?_, ?_⟩
  · exact Std.ExtTreeMap.getElem?_insert_self
  · exact ⟨rfl, h.failIn⟩

theorem Plain.readLines (h : c.Plain) {file text : String} (hf : c.storage.files[file]? = some text) :
    c.readLines file = .ok (lines text) := by
  simp only [Console.readLines, Storage.read, Storage.locate, h.naming, hf]

end Console

/-- An act that succeeds hands on its result and the machine. -/
theorem Act.bind_ok {α β : Type} {x : Act α} {a : α} {m m' : Machine} (h : x m = .ok a m') (f : α → Act β) :
    (x >>= f) m = f a m' := by
  show EStateM.bind x f m = _
  rw [EStateM.bind, h]

/-- On a plain console a line is printed, and nothing else changes. -/
theorem Act.printLine_ok {m : Machine} (h : m.console.Plain) (text : String) :
    ∃ c : Console, printLine text m = .ok () { m with console := c } ∧
      c.output = m.console.output ++ text ++ "\n" ∧ c.storage = m.console.storage ∧ c.Plain := by
  obtain ⟨c, hc, hrest⟩ := h.print text
  refine ⟨c, ?_, hrest⟩
  simp only [printLine, print, console, hc]

namespace Machine

/-- The tape of a verb with a text in quotes behind it has two lexemes. -/
theorem ofLine_quoted {v : Verb} (hr : v ≠ .remark) {opening s : String} (ho : opening = v.spelling ++ " \"")
    (hs : '"' ∉ s.toList) :
    ∃ a b c d p, Tape.ofLine (opening ++ s ++ "\"") =
      Tape.ofList p [⟨.verb v, a, b⟩, ⟨.quoted s, c, d⟩] := by
  have hspell : opening ++ s ++ "\"" = Line.spell [.verb v, .quoted s] := by
    apply String.toList_injective
    rw [ho, Line.toList_spell_cons _ (Token.Legible.spelling_ne (t := .verb v) trivial),
      Line.toList_spell_cons _ (Token.Legible.spelling_ne (t := .quoted s) hs)]
    simp [Token.spelling, Line.spaced, Line.spell_nil]
  have hleg : Legible [.verb v, .quoted s] := by
    have hquoted : Token.quoted s ≠ .verb .remark := by
      intro he
      cases he
    refine .cons trivial (fun he => hr (Token.verb.inj he)) ?_ (.cons hs hquoted (by simp [Line.spell_nil]) .nil)
    intro c hc
    rw [Line.head?_spell_cons _ (Token.Legible.spelling_ne (t := .quoted s) hs)] at hc
    obtain rfl : '"' = c := by simpa [Token.spelling] using hc
    unfold Token.draws
    split <;> rfl
  have hnumber : ∀ n r, [Token.verb v, .quoted s] ≠ .number n :: r := by
    intro n r he
    cases (List.cons.inj he).1
  obtain ⟨l, hl, hn, htok⟩ := Line.parse_spell hleg hnumber
  obtain ⟨xs, p, hx, hxt⟩ := Tape.exists_ofList (Line.tokens?_ofLine hl)
  rw [Line.allTokens, hn, htok] at hxt
  rcases xs with _ | ⟨⟨x, a, b⟩, _ | ⟨⟨y, c, d⟩, _ | ⟨z, zs⟩⟩⟩
  · simp at hxt
  · simp at hxt
  · obtain ⟨rfl, rfl⟩ : x = Token.verb v ∧ y = Token.quoted s := by simpa using hxt
    exact ⟨a, b, c, d, p, by rw [hspell, hx]⟩
  · simp at hxt

/-- A verb that takes one expression, with a text in quotes behind it. -/
theorem execute_quoted {v : Verb} {action : Expr → Action} (run : Act Unit)
    (hv : ∀ again t, Script.readVerb again v t = Script.readOne again action t) (hr : v ≠ .remark)
    {opening s : String} (ho : opening = v.spelling ++ " \"") (hs : '"' ∉ s.toList) :
    execute run (opening ++ s ++ "\"") = (do (action (.text s)).perform run none; pure ()) := by
  obtain ⟨a, b, c, d, p, ht⟩ := ofLine_quoted hr ho hs
  rw [execute, ht]
  show (Script.ofReading (Script.readVerb _ v _)).exec run none = _
  rw [hv]
  rfl

/-- **What `SAVE` does.** The listed lines are written to the file; only the
console changes. -/
theorem execute_save (run : Act Unit) {file : String} (hf : '"' ∉ file.toList) {m : Machine}
    (hm : m.console.Plain) :
    ∃ c : Console, execute run ("SAVE \"" ++ file ++ "\"") m = .ok () { m with console := c } ∧ c.Plain ∧
      c.storage.files[file]? = some (unlines (m.listing.range none none)) := by
  rw [execute_quoted (v := .save) run (fun _ _ => rfl) nofun (by decide) hf]
  obtain ⟨d, hd, hfile, hplain⟩ := hm.writeText file (unlines (m.listing.range none none))
  have hwrite : Act.writeFile file (unlines (m.listing.range none none)) m =
      .ok () { m with console := d } := by
    rw [Act.writeFile, hd]
  obtain ⟨c, hc, -, hstorage, hplain'⟩ :=
    Act.printLine_ok (m := { m with console := d }) hplain ("PROGRAM STORED INTO " ++ file)
  refine ⟨c, ?_, hplain', by rw [hstorage]; exact hfile⟩
  have hname : Act.text (.text file) m = .ok file m := rfl
  have hget : (get : Act Machine) m = .ok m m := rfl
  refine Act.bind_ok (a := ()) ?_ _
  refine (Act.bind_ok hname _).trans ?_
  refine (Act.bind_ok hget _).trans ?_
  exact (Act.bind_ok hwrite _).trans hc

/-- **What `LOAD` does**, if the lines of the file make a listing: the listing
is replaced, and the lines of the file are counted. -/
theorem execute_load (run : Act Unit) {file text : String} (hf : '"' ∉ file.toList) {m : Machine}
    (hm : m.console.Plain) (hfile : m.console.storage.files[file]? = some text) {n : Nat} {l : Listing}
    (hl : Listing.load (lines text) = (.ok n, l)) :
    ∃ c : Console, execute run ("LOAD \"" ++ file ++ "\"") m = .ok () { m with listing := l, console := c } ∧
      c.output = m.console.output ++
        ("PROGRAM LOADED: " ++ file ++ ", " ++ Nat.repr (lines text).length ++ " LINES") ++ "\n" := by
  rw [execute_quoted (v := .load) run (fun _ _ => rfl) nofun (by decide) hf]
  have hread : Act.readLines file m = .ok (lines text) m := by
    rw [Act.readLines, Act.inspect, hm.readLines hfile]
    rfl
  have hload : Act.loadLines (lines text) m = .ok () { m with listing := l } := by
    rw [Act.loadLines, hl]
  obtain ⟨c, hc, houtput, -⟩ := Act.printLine_ok (m := { m with listing := l }) hm
    ("PROGRAM LOADED: " ++ file ++ ", " ++ Nat.repr (lines text).length ++ " LINES")
  refine ⟨c, ?_, houtput⟩
  have hname : Act.text (.text file) m = .ok file m := rfl
  refine Act.bind_ok (a := ()) ?_ _
  refine (Act.bind_ok hname _).trans ?_
  refine (Act.bind_ok hread _).trans ?_
  exact (Act.bind_ok hload _).trans hc

/-- **`LOAD` undoes `SAVE`.** Let a listing have come about by any changes, with
no line feed in its texts, which is always so if no line that was entered or
loaded holds one. It is saved to a file, and then something else may happen, as
long as the file is left alone. Loading the file succeeds, brings the same
listing back, reports as many lines as it has, and changes nothing else but the
console. -/
theorem load_undoes_save (changes : List Listing.Change) {file : String} (hf : '"' ∉ file.toList)
    (run : Act Unit) :
    ((∀ s ∈ changes.flatMap Listing.Change.texts, '\n' ∉ s.toList) →
      ∀ x ∈ (Listing.after changes).lines, '\n' ∉ x.2.toList) ∧
    ((∀ x ∈ (Listing.after changes).lines, '\n' ∉ x.2.toList) →
      ∀ m : Machine, m.listing = Listing.after changes → m.console.Plain →
        ∃ c : Console, execute run ("SAVE \"" ++ file ++ "\"") m = .ok () { m with console := c } ∧ c.Plain ∧
          ∀ m' : Machine, m'.console.Plain →
            m'.console.storage.files[file]? = c.storage.files[file]? →
            ∃ c' : Console, execute run ("LOAD \"" ++ file ++ "\"") m' =
                .ok () { m' with listing := m.listing, console := c' } ∧
              c'.output = m'.console.output ++
                ("PROGRAM LOADED: " ++ file ++ ", " ++ Nat.repr m.listing.size ++ " LINES") ++ "\n") := by
  have hkept := Listing.kept_after changes
  refine ⟨hkept.not_mem_text, ?_⟩
  intro hfeed m hm hplain
  obtain ⟨c, hsave, hc, hfile⟩ := execute_save run hf hplain
  refine ⟨c, hsave, hc, ?_⟩
  intro m' hplain' hsame
  have hlines := Listing.lines_unlines_range hkept hfeed
  have hload := Listing.load_range hkept
  rw [← hm] at hlines hload
  rw [hfile] at hsame
  obtain ⟨c', hrun, houtput⟩ := execute_load run hf hplain' hsame (by rw [hlines]; exact hload)
  refine ⟨c', hrun, ?_⟩
  rw [houtput, hlines, Listing.range_none_none, List.length_map]
  rfl

-- A body that begins with a number, a line that was numbered by itself and
-- deleted, and a text in quotes.
theorem load_undoes_save_mixed :
    ∃ l : Listing, l = Listing.after [.load ["10 7< a", "rem  x "], .edit "5 print \"hi\"", .edit "20"] ∧
      l.size = 2 ∧ ∃ c c' : Console,
        execute (run 0) ("SAVE \"" ++ "A:B" ++ "\"") { listing := l } = .ok () { listing := l, console := c } ∧
        execute (run 0) ("LOAD \"" ++ "A:B" ++ "\"") { console := c } =
          .ok () { listing := l, console := c' } := by
  have hsize : (Listing.after [.load ["10 7< a", "rem  x "], .edit "5 print \"hi\"", .edit "20"]).size = 2 := by
    decide +kernel
  obtain ⟨hfeed, hround⟩ := load_undoes_save
    [.load ["10 7< a", "rem  x "], .edit "5 print \"hi\"", .edit "20"]
    (show '"' ∉ "A:B".toList by decide) (run 0)
  have hnone := hfeed (by decide)
  generalize Listing.after _ = l at hsize hround hnone
  obtain ⟨c, hsave, hc, hload⟩ := hround hnone { listing := l } rfl ⟨rfl, rfl⟩
  obtain ⟨c', hrun, -⟩ := hload { console := c } hc rfl
  exact ⟨l, rfl, hsize, c, c', hsave, hrun⟩

end Machine

end LineBasic
