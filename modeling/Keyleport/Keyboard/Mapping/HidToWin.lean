import Mathlib.Data.List.Basic

/-!
# Scan codes of Windows

`keyboard/mapping/hid_to_win.cpp`: the Set 1 scan code of a USB HID code, and whether it has the
E0 prefix.
-/

namespace Keyleport

/-- The cases of `hid_to_win_scan`: the HID code, the scan code, and whether it is extended. -/
def hidToWinCases : List (UInt16 × UInt16 × Bool) :=
  [
    -- digits (top row)
    (30, 0x02, false), (31, 0x03, false), (32, 0x04, false), (33, 0x05, false), (34, 0x06, false),
    (35, 0x07, false), (36, 0x08, false), (37, 0x09, false), (38, 0x0A, false), (39, 0x0B, false),
    (45, 0x0C, false), (46, 0x0D, false), (42, 0x0E, false), (43, 0x0F, false),
    -- letters
    (4, 0x1E, false), (5, 0x30, false), (6, 0x2E, false), (7, 0x20, false), (8, 0x12, false),
    (9, 0x21, false), (10, 0x22, false), (11, 0x23, false), (12, 0x17, false), (13, 0x24, false),
    (14, 0x25, false), (15, 0x26, false), (16, 0x32, false), (17, 0x31, false), (18, 0x18, false),
    (19, 0x19, false), (20, 0x10, false), (21, 0x13, false), (22, 0x1F, false), (23, 0x14, false),
    (24, 0x16, false), (25, 0x2F, false), (26, 0x11, false), (27, 0x2D, false), (28, 0x15, false),
    (29, 0x2C, false),
    -- brackets, punctuation, backslash, backtick
    (47, 0x1A, false), (48, 0x1B, false), (51, 0x27, false), (52, 0x28, false), (53, 0x29, false),
    (49, 0x2B, false), (54, 0x33, false), (55, 0x34, false), (56, 0x35, false),
    -- controls
    (40, 0x1C, false), (41, 0x01, false), (44, 0x39, false), (57, 0x3A, false),
    -- modifiers
    (224, 0x1D, false), (225, 0x2A, false), (226, 0x38, false), (227, 0x5B, true),
    (228, 0x1D, true), (229, 0x36, false), (230, 0x38, true), (231, 0x5C, true),
    -- navigation (extended)
    (73, 0x52, true), (76, 0x53, true), (74, 0x49, true), (78, 0x51, true), (75, 0x47, true),
    (77, 0x4F, true), (82, 0x48, true), (81, 0x50, true), (80, 0x4B, true), (79, 0x4D, true),
    -- function keys
    (58, 0x3B, false), (59, 0x3C, false), (60, 0x3D, false), (61, 0x3E, false), (62, 0x3F, false),
    (63, 0x40, false), (64, 0x41, false), (65, 0x42, false), (66, 0x43, false), (67, 0x44, false),
    (68, 0x57, false), (69, 0x58, false)]

/-- `hid_to_win_scan`, with the value it leaves in `extended`. A code without a case has the scan
code 0. -/
def hidToWinScan (hid : UInt16) : UInt16 × Bool := (hidToWinCases.lookup hid).getD (0, false)

end Keyleport
