/-! The codes that stand for words and operators in a stored program. Words of other dialects have
codes too; they are spelled out as text when a line is decoded. -/

namespace LineBasic.Image.Codes

/-- Words stored as one byte. -/
def plain : List (UInt8 × String) :=
  [(0x81, "END"), (0x82, "FOR"), (0x83, "NEXT"), (0x84, "DATA"), (0x85, "INPUT"), (0x86, "DIM"),
    (0x87, "READ"), (0x88, "LET"), (0x89, "GOTO"), (0x8A, "RUN"), (0x8B, "IF"),
    (0x8C, "RESTORE"), (0x8D, "GOSUB"), (0x8E, "RETURN"), (0x8F, "REM"), (0x90, "STOP"),
    (0x91, "PRINT"), (0x92, "CLEAR"), (0x93, "LIST"), (0x94, "NEW"), (0x95, "ON"),
    (0x96, "WAIT"), (0x97, "DEF"), (0x98, "POKE"), (0x99, "CONT"), (0x9C, "OUT"),
    (0x9D, "LPRINT"), (0x9E, "LLIST"), (0xA0, "WIDTH"), (0xA1, "ELSE"), (0xA2, "TRON"),
    (0xA3, "TROFF"), (0xA4, "SWAP"), (0xA5, "ERASE"), (0xA6, "EDIT"), (0xA7, "ERROR"),
    (0xA8, "RESUME"), (0xA9, "DELETE"), (0xAA, "AUTO"), (0xAB, "RENUM"), (0xAC, "DEFSTR"),
    (0xAD, "DEFINT"), (0xAE, "DEFSNG"), (0xAF, "DEFDBL"), (0xB0, "LINE"), (0xB1, "WHILE"),
    (0xB2, "WEND"), (0xB3, "CALL"), (0xB7, "WRITE"), (0xB8, "OPTION"), (0xB9, "RANDOMIZE"),
    (0xBA, "OPEN"), (0xBB, "CLOSE"), (0xBC, "LOAD"), (0xBD, "MERGE"), (0xBE, "SAVE"),
    (0xBF, "COLOR"), (0xC0, "CLS"), (0xC1, "MOTOR"), (0xC2, "BSAVE"), (0xC3, "BLOAD"),
    (0xC4, "SOUND"), (0xC5, "BEEP"), (0xC6, "PSET"), (0xC7, "PRESET"), (0xC8, "SCREEN"),
    (0xC9, "KEY"), (0xCA, "LOCATE"), (0xCC, "TO"), (0xCD, "THEN"), (0xCE, "TAB("),
    (0xCF, "STEP"), (0xD0, "USR"), (0xD1, "FN"), (0xD2, "SPC("), (0xD3, "NOT"), (0xD4, "ERL"),
    (0xD5, "ERR"), (0xD6, "STRING$"), (0xD7, "USING"), (0xD8, "INSTR"), (0xD9, "'"),
    (0xDA, "VARPTR"), (0xDB, "CSRLIN"), (0xDC, "POINT"), (0xDD, "OFF"), (0xDE, "INKEY$"),
    (0xE6, ">"), (0xE7, "="), (0xE8, "<"), (0xE9, "+"), (0xEA, "-"), (0xEB, "*"), (0xEC, "/"),
    (0xED, "^"), (0xEE, "AND"), (0xEF, "OR"), (0xF0, "XOR"), (0xF1, "EQV"), (0xF2, "IMP"),
    (0xF3, "MOD"), (0xF4, "\\")]

/-- Words stored after the byte FD. -/
def afterFD : List (UInt8 × String) :=
  [(0x81, "CVI"), (0x82, "CVS"), (0x83, "CVD"), (0x84, "MKI$"), (0x85, "MKS$"), (0x86, "MKD$"),
    (0x8B, "EXTERR")]

/-- Words stored after the byte FE. -/
def afterFE : List (UInt8 × String) :=
  [(0x81, "FILES"), (0x82, "FIELD"), (0x83, "SYSTEM"), (0x84, "NAME"), (0x85, "LSET"),
    (0x86, "RSET"), (0x87, "KILL"), (0x88, "PUT"), (0x89, "GET"), (0x8A, "RESET"),
    (0x8B, "COMMON"), (0x8C, "CHAIN"), (0x8D, "DATE$"), (0x8E, "TIME$"), (0x8F, "PAINT"),
    (0x90, "COM"), (0x91, "CIRCLE"), (0x92, "DRAW"), (0x93, "PLAY"), (0x94, "TIMER"),
    (0x95, "ERDEV"), (0x96, "IOCTL"), (0x97, "CHDIR"), (0x98, "MKDIR"), (0x99, "RMDIR"),
    (0x9A, "SHELL"), (0x9B, "ENVIRON"), (0x9C, "VIEW"), (0x9D, "WINDOW"), (0x9E, "PMAP"),
    (0x9F, "PALETTE"), (0xA0, "LCOPY"), (0xA1, "CALLS"), (0xA4, "NOISE"), (0xA5, "PCOPY"),
    (0xA6, "TERM"), (0xA7, "LOCK"), (0xA8, "UNLOCK")]

/-- Words stored after the byte FF. -/
def afterFF : List (UInt8 × String) :=
  [(0x81, "LEFT$"), (0x82, "RIGHT$"), (0x83, "MID$"), (0x84, "SGN"), (0x85, "INT"),
    (0x86, "ABS"), (0x87, "SQR"), (0x88, "RND"), (0x89, "SIN"), (0x8A, "LOG"), (0x8B, "EXP"),
    (0x8C, "COS"), (0x8D, "TAN"), (0x8E, "ATN"), (0x8F, "FRE"), (0x90, "INP"), (0x91, "POS"),
    (0x92, "LEN"), (0x93, "STR$"), (0x94, "VAL"), (0x95, "ASC"), (0x96, "CHR$"), (0x97, "PEEK"),
    (0x98, "SPACE$"), (0x99, "OCT$"), (0x9A, "HEX$"), (0x9B, "LPOS"), (0x9C, "CINT"),
    (0x9D, "CSNG"), (0x9E, "CDBL"), (0x9F, "FIX"), (0xA0, "PEN"), (0xA1, "STICK"),
    (0xA2, "STRIG"), (0xA3, "EOF"), (0xA4, "LOC"), (0xA5, "LOF")]

end LineBasic.Image.Codes
