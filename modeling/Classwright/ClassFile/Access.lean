/-! # Access flags -/

namespace Classwright.Access

def isPublic : UInt16 := 0x0001

def isProtected : UInt16 := 0x0004

def isStatic : UInt16 := 0x0008

/-- Set on every class that is no interface. -/
def isSuper : UInt16 := 0x0020

def isNative : UInt16 := 0x0100

def isInterface : UInt16 := 0x0200

def isAbstract : UInt16 := 0x0400

def has (access flag : UInt16) : Bool := access &&& flag == flag

/-- The flag if the condition holds, otherwise nothing. -/
def flagIf (condition : Bool) (flag : UInt16) : UInt16 := if condition then flag else 0

end Classwright.Access
