/-
# Wk.Library.MidiBytes -- the status byte of a channel message

The high four bits say what a MIDI channel message is, the low four which channel it is
on.
-/
import Mathlib

namespace Wk.Library

set_option autoImplicit false

/-- A status byte on a channel is taken apart again. -/
theorem status_parts : ∀ kind ∈ [(0x80 : UInt8), 0x90, 0xB0], ∀ c : UInt8, c < 16 →
    (kind ||| c) &&& 0xF0 = kind ∧ (kind ||| c) &&& 0x0F = c := by
  decide +kernel

theorem status_on {c : UInt8} (channel : c < 16) :
    (0x90 ||| c) &&& 0xF0 = 0x90 ∧ (0x90 ||| c) &&& 0x0F = c :=
  status_parts 0x90 (by decide) c channel

theorem status_off {c : UInt8} (channel : c < 16) :
    (0x80 ||| c) &&& 0xF0 = 0x80 ∧ (0x80 ||| c) &&& 0x0F = c :=
  status_parts 0x80 (by decide) c channel

theorem channel_lt : ∀ status : UInt8, status &&& 0x0F < 16 := by decide +kernel

/-- A note-on's status byte is put together again, and is no system message. -/
theorem status_of_on : ∀ status : UInt8, status &&& 0xF0 = 0x90 →
    0x90 ||| (status &&& 0x0F) = status ∧ status < 0xF0 := by
  decide +kernel

end Wk.Library
