import Patrol.Config.Printing
import Patrol.Json.Strings

/-! The round trip: which configurations `load` gets back from what `save` writes. -/

namespace Patrol.Config.ConfigManager

open ProofKit Json

/-- The strings of a configuration. -/
def strings (c : ConfigManager) : List (List UInt8) :=
  [c.camera.device, c.network.bind, c.serial.device]

/-- No string of a configuration has a null byte, a quote or a backslash. -/
def Plain (c : ConfigManager) : Prop := ∀ s ∈ c.strings, PlainText s

instance (c : ConfigManager) : Decidable (Plain c) := List.decidableBAll _ c.strings

/-- A new manager that loads what `save` writes has the configuration. -/
def RoundTrip (toLong : List UInt8 → Int64) (c : ConfigManager) : Prop :=
  load toLong {} (some (save c)) = (c, true)

/-! ### What `save` writes -/

/-- The end of a line, and the indentation of the next one. -/
def indent (n : Nat) : List UInt8 := 0x0A :: List.replicate n 0x20

/-- The name of a member on a line of its own, and what follows it. -/
def member (n : Nat) (key r : List UInt8) : List UInt8 :=
  indent n ++ (0x22 :: (key ++ 0x22 :: (0x3A :: ([0x20] ++ r))))

def saveSerial (c : ConfigManager) : List UInt8 :=
  member 2 (ascii "serial") (0x7B :: member 4 (ascii "device") (0x22 ::
    (printStr c.serial.device ++ 0x22 :: 0x2C :: member 4 (ascii "baud")
      (printInt c.serial.baud.toInt ++ (indent 2 ++ 0x7D :: (indent 0 ++ [0x7D, 0x0A]))))))

def saveNetwork (c : ConfigManager) : List UInt8 :=
  member 2 (ascii "network") (0x7B :: member 4 (ascii "bind") (0x22 ::
    (printStr c.network.bind ++ 0x22 :: 0x2C :: member 4 (ascii "port")
      (printNat c.network.port.toNat ++ (indent 2 ++ 0x7D :: 0x2C :: saveSerial c)))))

def saveCamera (c : ConfigManager) : List UInt8 :=
  member 2 (ascii "camera") (0x7B :: member 4 (ascii "device") (0x22 ::
    (printStr c.camera.device ++ 0x22 :: 0x2C :: member 4 (ascii "width")
      (printInt c.camera.width.toInt ++ 0x2C :: member 4 (ascii "height")
        (printInt c.camera.height.toInt ++ 0x2C :: member 4 (ascii "fps")
          (printInt c.camera.fps.toInt ++ (indent 2 ++ 0x7D :: 0x2C :: saveNetwork c)))))))

set_option maxRecDepth 2000 in
theorem save_eq (c : ConfigManager) : save c = 0x7B :: saveCamera c := rfl

/-! ### A plain configuration is loaded -/

theorem indent_spaces (n : Nat) : Spaces (indent n) := by
  refine List.forall_mem_cons.mpr ⟨by decide, ?_⟩
  intro c hc
  rw [List.eq_of_mem_replicate hc]
  decide

theorem member_more {n : Nat} {k : List UInt8} {t : Tree} {v : List UInt8}
    {m : List UInt8 × Tree} {ms : List (List UInt8 × Tree)} {u : List UInt8} (hk : PlainText k)
    (h : Text t v) (hrest : MembersText (m :: ms) u) :
    MembersText ((k, t) :: m :: ms) (member n k (v ++ 0x2C :: u)) :=
  @MembersText.more _ _ _ _ _ _ [] _ _ [] _ (indent_spaces n) hk.stringText (by decide) (by decide)
    h (by decide) hrest

theorem member_last {n n' : Nat} {k : List UInt8} {t : Tree} {v : List UInt8} (hk : PlainText k)
    (h : Text t v) : MembersText [(k, t)] (member n k (v ++ indent n')) :=
  @MembersText.last _ _ _ _ [] _ _ _ (indent_spaces n) hk.stringText (by decide) (by decide) h
    (indent_spaces n')

/-- What `save` writes, as a tree. -/
def tree (c : ConfigManager) : Tree :=
  .object [
    (ascii "camera", .object [
      (ascii "device", .string c.camera.device),
      (ascii "width", .int c.camera.width.toInt64),
      (ascii "height", .int c.camera.height.toInt64),
      (ascii "fps", .int c.camera.fps.toInt64)]),
    (ascii "network", .object [
      (ascii "bind", .string c.network.bind),
      (ascii "port", .int (Int64.ofNat c.network.port.toNat))]),
    (ascii "serial", .object [
      (ascii "device", .string c.serial.device),
      (ascii "baud", .int c.serial.baud.toInt64)])]

theorem save_text {c : ConfigManager} (h : Plain c) :
    ∃ v, save c = [] ++ (v ++ [0x0A]) ∧ Text c.tree v := by
  obtain ⟨hcamera, hnetwork, hserial, -⟩ : _ ∧ _ ∧ _ ∧ _ := by
    simpa only [Plain, strings, List.forall_mem_cons] using h
  have hserialText := @member_last 2 0 (ascii "serial") _ _ (by decide) <| .object <|
    @member_more 4 (ascii "device") _ _ _ _ _ (by decide) (.string hserial.stringText) <|
    @member_last 4 2 (ascii "baud") _ _ (by decide) (.int (printInt_int32 c.serial.baud))
  have hnetworkText := @member_more 2 (ascii "network") _ _ _ _ _ (by decide) (.object <|
    @member_more 4 (ascii "bind") _ _ _ _ _ (by decide) (.string hnetwork.stringText) <|
    @member_last 4 2 (ascii "port") _ _ (by decide) (.int (printNat_port c.network.port)))
    hserialText
  have hcameraText := @member_more 2 (ascii "camera") _ _ _ _ _ (by decide) (.object <|
    @member_more 4 (ascii "device") _ _ _ _ _ (by decide) (.string hcamera.stringText) <|
    @member_more 4 (ascii "width") _ _ _ _ _ (by decide) (.int (printInt_int32 c.camera.width)) <|
    @member_more 4 (ascii "height") _ _ _ _ _ (by decide)
      (.int (printInt_int32 c.camera.height)) <|
    @member_last 4 2 (ascii "fps") _ _ (by decide) (.int (printInt_int32 c.camera.fps)))
    hnetworkText
  refine ⟨_, ?_, .object hcameraText⟩
  simp only [save_eq, saveCamera, saveNetwork, saveSerial, member, printStr_plain hcamera,
    printStr_plain hnetwork, printStr_plain hserial, List.append_assoc, List.cons_append,
    List.nil_append]

/-- A plain configuration is loaded. -/
theorem load_save (toLong : List UInt8 → Int64) {c : ConfigManager} (h : Plain c) :
    RoundTrip toLong c := by
  obtain ⟨v, hsave, htext⟩ := save_text h
  have hparse := @parse_text _ _ [] [0x0A] htext (by decide) (by decide) ""
  rw [← hsave] at hparse
  have hload : load toLong {} (some (save c)) =
      ({ camera := ⟨c.camera.device, c.camera.width.toInt64.toInt32,
          c.camera.height.toInt64.toInt32, c.camera.fps.toInt64.toInt32⟩
         network := ⟨c.network.bind, toPort (Int64.ofNat c.network.port.toNat)⟩
         serial := ⟨c.serial.device, c.serial.baud.toInt64.toInt32⟩ }, true) := by
    rw [load, hparse]
    rfl
  rw [RoundTrip, hload]
  simp only [Int32.toInt32_toInt64, toPort_ofNat]

/-! ### Which strings the saved text has in it -/

/-- A string is plain, or has fewer than `bound` characters. -/
def Within (bound : Nat) (s : List UInt8) : Prop := PlainText s ∨ s.length < bound

theorem PlainText.raw {s : List UInt8} (h : PlainText s) : Raw s := fun b hb => (h b hb).2

theorem quoted_plain {s r : List UInt8} {ps : List Piece} (hs : PlainText s)
    (h : Holds (0x22 :: (s ++ 0x22 :: r)) ps) : PlainText (ps.map Piece.value) ∨ Holds r ps := by
  obtain ⟨qs, r', hqs, htext, hcase⟩ := holds_quote h
  obtain ⟨rfl, rfl⟩ := raw_ends hs.raw hqs htext.symm
  rcases hcase with ⟨rfl, -⟩ | hrest
  · left
    rwa [plain_value]
  · exact Or.inr hrest

theorem holds_member {n : Nat} {k r : List UInt8} {ps : List Piece} (hk : PlainText k)
    (h : Holds (member n k r) ps) : PlainText (ps.map Piece.value) ∨ Holds r ps := by
  rw [member] at h
  have hquote := holds_skip (t := indent n) (by simp [indent]) h
  refine (quoted_plain hk hquote).imp_right fun hr => ?_
  exact (holds_mark (by decide) (holds_mark (by decide) hr).2).2

theorem printStr_length (s : List UInt8) : (printStr s).length ≤ s.length :=
  (List.takeWhile_sublist _).length_le

theorem printStr_ne_zero (s : List UInt8) : ∀ b ∈ printStr s, b ≠ 0 := by
  intro b hb
  simpa using List.mem_takeWhile_imp hb

/-- A string that is printed, before the member that follows it. -/
theorem holds_string {s k r : List UInt8} {x : UInt8} {bound : Nat} {ps : List Piece}
    (hs : Within (bound + 1) s) (hx : x ≠ 0x22) (hmark : isMark x = false)
    (h : Holds (0x22 :: (printStr s ++ 0x22 :: 0x2C :: member 4 (x :: k) r)) ps) :
    Within bound (ps.map Piece.value) ∨ Holds (0x2C :: member 4 (x :: k) r) ps := by
  rcases hs with hplain | hbound
  · rw [printStr_plain hplain] at h
    exact (quoted_plain hplain h).imp_left Or.inl
  · have hlength := printStr_length s
    have hraw : Raw (0x2C :: indent 4) := by simp [Raw, indent]
    rcases (holds_between hraw (by decide) hx hmark (printStr s)).1 h with htext | hlt | hrest
    · left
      rcases pieces_cases h.1 with ⟨t, ht, rfl⟩ | hlt
      · rw [plain_text] at htext
        subst htext
        rw [plain_value]
        exact Or.inl fun b hb => ⟨printStr_ne_zero s b hb, ht b hb⟩
      · right
        rw [htext] at hlt
        rw [List.length_map]
        omega
    · left
      right
      rw [List.length_map]
      omega
    · exact Or.inr hrest

theorem holds_number {x : Int} {r : List UInt8} {ps : List Piece} (h : Holds (printInt x ++ r) ps) :
    Holds r ps := by
  refine holds_skip ?_ h
  rw [← printed_text]
  rintro c hc rfl
  exact absurd (numeral_marks (@Lexeme.IsJson.readable (.numeral _) (printed_isJson x)) _ hc)
    (by decide)

theorem holds_indent {n : Nat} {r : List UInt8} {ps : List Piece} (h : Holds (indent n ++ r) ps) :
    Holds r ps :=
  holds_skip (by simp [indent]) h

theorem printNat_eq (n : Nat) : printNat n = printInt n := by
  rw [printInt, if_neg (by omega), Int.natAbs_natCast]

/-- The head of a section: its name, and a member with a string. -/
theorem holds_head {k k' k'' s r : List UInt8} {x : UInt8} {bound : Nat} {ps : List Piece}
    (hk : PlainText k) (hk' : PlainText k') (hs : Within (bound + 1) s) (hx : x ≠ 0x22)
    (hmark : isMark x = false)
    (h : Holds (member 2 k (0x7B :: member 4 k' (0x22 ::
      (printStr s ++ 0x22 :: 0x2C :: member 4 (x :: k'') r)))) ps) :
    Within bound (ps.map Piece.value) ∨ Holds (0x2C :: member 4 (x :: k'') r) ps := by
  rcases holds_member hk h with hplain | h
  · exact Or.inl (Or.inl hplain)
  rcases holds_member hk' (holds_mark (by decide) h).2 with hplain | h
  · exact Or.inl (Or.inl hplain)
  · exact holds_string hs hx hmark h

/-- A member with a number, behind a comma. -/
theorem holds_field {k r : List UInt8} {x : Int} {bound : Nat} {ps : List Piece} (hk : PlainText k)
    (h : Holds (0x2C :: member 4 k (printInt x ++ r)) ps) :
    Within bound (ps.map Piece.value) ∨ Holds r ps := by
  rcases holds_member hk (holds_mark (by decide) h).2 with hplain | h
  · exact Or.inl (Or.inl hplain)
  · exact Or.inr (holds_number h)

theorem holds_end {r : List UInt8} {ps : List Piece}
    (h : Holds (indent 2 ++ 0x7D :: 0x2C :: r) ps) : Holds r ps :=
  (holds_mark (by decide) (holds_mark (by decide) (holds_indent h)).2).2

theorem saveSerial_within {c : ConfigManager} {bound : Nat} {ps : List Piece}
    (hc : Within (bound + 1) c.serial.device) (h : Holds (saveSerial c) ps) :
    Within bound (ps.map Piece.value) := by
  rw [saveSerial] at h
  rcases holds_head (by decide) (by decide) hc (by decide) (by decide) h with hwithin | h
  · exact hwithin
  rcases holds_field (by decide) h with hwithin | h
  · exact hwithin
  · have hend := holds_indent (holds_mark (by decide) (holds_indent h)).2
    exact absurd (holds_mark (by decide) (holds_mark (by decide) hend).2).2 holds_nil

theorem saveNetwork_within {c : ConfigManager} {bound : Nat} {ps : List Piece}
    (hc : Within (bound + 1) c.network.bind) (h : Holds (saveNetwork c) ps) :
    Within bound (ps.map Piece.value) ∨ Holds (saveSerial c) ps := by
  rw [saveNetwork, printNat_eq] at h
  rcases holds_head (by decide) (by decide) hc (by decide) (by decide) h with hwithin | h
  · exact Or.inl hwithin
  · exact (holds_field (by decide) h).imp_right holds_end

theorem saveCamera_within {c : ConfigManager} {bound : Nat} {ps : List Piece}
    (hc : Within (bound + 1) c.camera.device) (h : Holds (saveCamera c) ps) :
    Within bound (ps.map Piece.value) ∨ Holds (saveNetwork c) ps := by
  rw [saveCamera] at h
  rcases holds_head (by decide) (by decide) hc (by decide) (by decide) h with hwithin | h
  · exact Or.inl hwithin
  rcases holds_field (by decide) h with hwithin | h
  · exact Or.inl hwithin
  rcases holds_field (by decide) h with hwithin | h
  · exact Or.inl hwithin
  · exact (holds_field (by decide) h).imp_right holds_end

/-- The strings in what is saved are plain, or shorter than the longest of the configuration. -/
theorem save_within {c : ConfigManager} {bound : Nat} {ps : List Piece}
    (hc : ∀ s ∈ c.strings, Within (bound + 1) s) (h : Holds (save c) ps) :
    Within bound (ps.map Piece.value) := by
  obtain ⟨hcamera, hnetwork, hserial, -⟩ : _ ∧ _ ∧ _ ∧ _ := by
    simpa only [strings, List.forall_mem_cons] using hc
  rw [save_eq] at h
  rcases saveCamera_within hcamera (holds_mark (by decide) h).2 with hwithin | h
  · exact hwithin
  rcases saveNetwork_within hnetwork h with hwithin | h
  · exact hwithin
  · exact saveSerial_within hserial h

/-! ### Which strings are loaded -/

theorem loadCamera_device (toLong : List UInt8 → Int64) (conf : CameraConf) (n : JsonNode) :
    (loadCamera toLong conf n).device = (n.get (ascii "device")).stringOr conf.device := by
  cases n <;> rfl

theorem loadNetwork_bind (toLong : List UInt8 → Int64) (conf : NetworkConf) (n : JsonNode) :
    (loadNetwork toLong conf n).bind = (n.get (ascii "bind")).stringOr conf.bind := by
  cases n <;> rfl

theorem loadSerial_device (toLong : List UInt8 → Int64) (conf : SerialConf) (n : JsonNode) :
    (loadSerial toLong conf n).device = (n.get (ascii "device")).stringOr conf.device := by
  cases n <;> rfl

/-- A string of a configuration that is loaded is one of the file, or the one that was there. -/
theorem load_strings {toLong : List UInt8 → Int64} {c d : ConfigManager} {content : List UInt8}
    (h : load toLong d (some content) = (c, true)) :
    ∀ s ∈ c.strings, s ∈ d.strings ∨ ∃ ps, Holds (skip content) ps ∧ s = ps.map Piece.value := by
  rcases hparse : parse content "" with ⟨root, err⟩
  rw [load, hparse] at h
  simp only at h
  split at h
  · cases h
  · next hok =>
    simp only [Bool.or_eq_true, not_or, bne_iff_ne, ne_eq, not_not] at hok
    obtain ⟨v, r, hreads⟩ := parse_accepts.mp ((congrArg Prod.snd hparse).trans hok.1)
    rw [parse_reads hreads] at hparse
    obtain rfl := (Prod.mk.inj hparse).1
    obtain rfl := (Prod.mk.inj h).1
    intro s hs
    simp only [strings, loadCamera_device, loadNetwork_bind, loadSerial_device,
      List.mem_cons] at hs ⊢
    rcases hs with rfl | rfl | rfl | hs
    · exact (reads_string hreads _ _ _).imp_left fun heq => Or.inl heq
    · exact (reads_string hreads _ _ _).imp_left fun heq => Or.inr (Or.inl heq)
    · exact (reads_string hreads _ _ _).imp_left fun heq => Or.inr (Or.inr (Or.inl heq))
    · exact absurd hs List.not_mem_nil

/-- If a configuration is loaded, its longest string that is not plain is in the saved text, where
all that are not plain are shorter. -/
theorem within_of_roundTrip {toLong : List UInt8 → Int64} {c : ConfigManager} {bound : Nat}
    (h : RoundTrip toLong c) (hc : ∀ s ∈ c.strings, Within (bound + 1) s) :
    ∀ s ∈ c.strings, Within bound s := by
  have hdefault : ∀ s ∈ strings {}, PlainText s := by decide
  intro s hs
  rcases load_strings h s hs with hold | ⟨ps, hholds, rfl⟩
  · exact Or.inl (hdefault s hold)
  · have hskip : skip (save c) = save c := by
      rw [save_eq]
      rfl
    rw [hskip] at hholds
    exact save_within hc hholds

/-- A configuration is loaded from what is saved of it if and only if it is plain. -/
theorem roundTrip_iff (toLong : List UInt8 → Int64) (c : ConfigManager) :
    RoundTrip toLong c ↔ Plain c := by
  refine ⟨fun h => ?_, load_save toLong⟩
  have hwithin : ∀ bound, (∀ s ∈ c.strings, Within bound s) → Plain c := by
    intro bound
    induction bound with
    | zero => exact fun hc s hs => (hc s hs).resolve_right (Nat.not_lt_zero _)
    | succ bound ih => exact fun hc => ih (within_of_roundTrip h hc)
  refine hwithin (c.strings.flatten.length + 1) fun s hs => Or.inr ?_
  exact Nat.lt_succ_of_le (List.sublist_flatten_of_mem hs).length_le

example (toLong : List UInt8 → Int64) : RoundTrip toLong {} :=
  (roundTrip_iff toLong {}).mpr (by decide)

/-- Whatever files were loaded before, the configuration is loaded from what is saved of it if and
only if none of its strings has a null byte, a quote or a backslash. -/
theorem reloaded_iff (toLong : List UInt8 → Int64) (files : List (Option (List UInt8))) :
    RoundTrip toLong ((loading toLong).run files) ↔ Plain ((loading toLong).run files) :=
  roundTrip_iff toLong _

/-- A file whose device is a quote. -/
def quoteFile : List UInt8 := ascii "\x7b\"camera\":\x7b\"device\":\"\\\"\"\x7d\x7d"

/-- The device is a quote after the file is loaded, and what is saved cannot be loaded. -/
theorem quote_not_reloaded :
    ¬ ∀ toLong files, RoundTrip toLong ((loading toLong).run files) := by
  intro h
  have hrun := h (fun _ => 0) [some quoteFile]
  have hsaved :
      (load (fun _ => 0) {} (some (save ((loading fun _ => 0).run [some quoteFile])))).2 = false := by
    decide +kernel
  rw [hrun] at hsaved
  cases hsaved

end Patrol.Config.ConfigManager
